import Moo.Disk.Basic
import Moo.Run.Basic

/-!
# Running files
-/

namespace Moo.Run

/-- The job of running a file. Its receipt names the path as it was given. -/
def Job.ofFile (d : Disk) (path : String) (catalogue : Catalogue) (options : Options)
    (stamp : Stamp) : Except DiskError Job := do
  let text ← d.readText (.ofString path)
  return { text, path := some path, catalogue, options, stamp }

end Moo.Run
