import ArithAsm.FileSystem

/-!
What commands may expect of files. The state of a file system can be anything, as
long as there is a view of it that tells what is stored at each place. A write
either stores the whole text at the place that the path names and nothing else, or
fails and stores nothing. The tree of files that a `Directory` holds is of this
kind.
-/

namespace ArithAsm

/-- Two operations in a row on one state. -/
theorem state_bind_apply {σ α β : Type} (action : StateM σ α) (next : α → StateM σ β) (s : σ) :
    (action >>= next) s = next (action s).1 (action s).2 := rfl

namespace FileSystem

end FileSystem

namespace Directory

/-- The place that a path names, if it names one. -/
def place (d : Directory) (path : Text) : Option (List Text) :=
  (d.locate path).toOption

end Directory

end ArithAsm
