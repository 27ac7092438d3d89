import En675.Http.FsFileList

/-! The page against what is allocated for it, entry by entry, and the pages of a directory put
together. -/

namespace En675.Http

open Lib

section lengths

variable (it : FsFileList)

/-- The length the counts of a page come to. -/
def PageLen.total (n : PageLen) : Nat :=
  lshtmlBodyA1Size * n.nFileCnt + lshtmlBodyA2Size * n.nMP4FileCnt + lshtmlBodyDSize * n.nDirCnt +
    (n.nSumItemname + n.nSumFilesize)

end lengths

section page

variable (items : List FsFileList) (n : Nat) (p : Int)

end page

section request

variable (q : Qsort) (al : Allocs) (path : List UInt8) (dir : DirList)

/-- The entries a page may show, as the second scan stores them. -/
def loadedItems : List FsFileList := ((visible true dir.entries).filter isListed).mapIdx (flItemOf al)

variable {q al path dir} {p : Int} {s : FsflData}

/-- What the cache holds, if it is used again, is the directory. -/
def FsflData.Fresh (q : Qsort) (al : Allocs) (path : List UInt8) (dir : DirList) (s : FsflData) : Prop :=
  s.reflag path (totals dir.entries) = true →
    s.flItem = some (q.sort (loadedItems al dir)) ∧ s.nTotalItemCnt = (loadedItems al dir).length

/-- The pages one after another. -/
def pages (q : Qsort) (al : Allocs) (path : List UInt8) (dir : DirList) :
    FsflData → List Int → List (Option Html)
  | _, [] => []
  | s, p :: ps =>
    let (t, html) := enxWeblsGetHtml q al path (some dir) p s
    html :: pages q al path dir t ps

end request

end En675.Http
