import En675.Lib.CString

/-! The page that lists a directory of the SD card (`fsfilelist.c`): the directory counted and read,
the cache between two requests, the length a page is given and the text it gets.  Sums that
`webls_get_fileinfo` makes are made again for the page and are left out. -/

namespace En675.Http

open Lib

def amHid : UInt8 := 0x02
def amSys : UInt8 := 0x04
def amDir : UInt8 := 0x10
def amArc : UInt8 := 0x20

/-- An entry as `f_readdir` gives it. -/
structure FilInfo where
  fsize : UInt32
  fdate : UInt16
  ftime : UInt16
  fattrib : UInt8
  altname : List UInt8
  fname : List UInt8
  fname_ne : fname ≠ []
  fname_nul : 0 ∉ fname
  /-- FF_LFN_BUF -/
  fname_le : fname.length ≤ 255

/-- What a scan of a directory gives, up to the entry with no name; MAX_DIR_EX bounds it. -/
structure DirList where
  entries : List FilInfo
  small : entries.length ≤ 2 ^ 23

structure FsFileList where
  flname : Option (List UInt8)
  fname : List UInt8
  fattrib : UInt8
  extension : Nat
  fdate : UInt16
  ftime : UInt16
  fsize : UInt32
  deriving DecidableEq

structure FsflData where
  flItem : Option (List FsFileList)
  nTotalDirCnt : Nat
  nTotalFileCnt : Nat
  nTotalItemCnt : Nat
  strPath : Option (List UInt8)
  nPathSize : Nat
  deriving DecidableEq

/-- Which allocations of a request get memory. -/
structure Allocs where
  strPath : Bool
  flItem : Bool
  flname : Nat → Bool
  data : Bool

def saveFilenameLens : Nat := 21

def lshtmlFilesPerPage : Nat := 100

/-- The decimal digits of a number. -/
def weblsNumberCount (number : Nat) : Nat :=
  if number / 10 ≠ 0 then weblsNumberCount (number / 10) + 1 else 1

/-- What both scans pass over: the first `.`, and entries both system and hidden. -/
def visible : Bool → List FilInfo → List FilInfo
  | _, [] => []
  | selfname, e :: es =>
    if selfname = true ∧ e.fname = ascii "." then visible false es
    else if e.fattrib &&& amSys ≠ 0 ∧ e.fattrib &&& amHid ≠ 0 then visible selfname es
    else e :: visible selfname es

section scan

structure Totals where
  nTotalDirCnt : Nat
  nTotalFileCnt : Nat
  nTotalFileSize : Nat
  deriving DecidableEq

def Totals.add (t : Totals) (e : FilInfo) : Totals :=
  if e.fattrib &&& amArc ≠ 0 then
    { t with
      nTotalFileCnt := t.nTotalFileCnt + 1
      nTotalFileSize := (t.nTotalFileSize + e.fsize.toNat) % 2 ^ 32 }
  else if e.fattrib &&& amDir ≠ 0 then { t with nTotalDirCnt := t.nTotalDirCnt + 1 }
  else t

def totals (dir : List FilInfo) : Totals := (visible true dir).foldl Totals.add ⟨0, 0, 0⟩

def FsflData.empty : FsflData := ⟨none, 0, 0, 0, none, 0⟩

/-- The cache is that of a request with the same path and totals. -/
def FsflData.reflag (s : FsflData) (path : List UInt8) (t : Totals) : Bool :=
  s.strPath = some path && s.nPathSize = t.nTotalFileSize && s.nTotalDirCnt = t.nTotalDirCnt &&
    s.nTotalFileCnt = t.nTotalFileCnt

/-- The state, and `reflag`; `none` stands for ENX_FAIL. -/
def weblsFsfldInitCheck (al : Allocs) (path : List UInt8) (dir : DirList) (s : FsflData) :
    Option (FsflData × Bool) :=
  let t := totals dir.entries
  if s.reflag path t then some (s, true)
  else
    let items := t.nTotalDirCnt + t.nTotalFileCnt
    if al.flItem then
      some ({ flItem := some (.replicate items ⟨none, [], 0, 0, 0, 0, 0⟩)
              nTotalDirCnt := t.nTotalDirCnt
              nTotalFileCnt := t.nTotalFileCnt
              nTotalItemCnt := items
              strPath := if al.strPath then some path else none
              nPathSize := t.nTotalFileSize }, false)
    else none

/-- The entry `iI` of the array. -/
def flItemOf (al : Allocs) (iI : Nat) (e : FilInfo) : FsFileList where
  flname := if e.fname.length > saveFilenameLens ∧ al.flname iI then some e.fname else none
  fname := if e.fname.length > saveFilenameLens ∧ al.flname iI then [] else
    e.fname.take saveFilenameLens
  fattrib := e.fattrib
  extension := if e.fattrib &&& amArc ≠ 0 ∧ contains (ascii ".MP4") e.altname then 1 else 0
  fdate := e.fdate
  ftime := e.ftime
  fsize := e.fsize

def isListed (e : FilInfo) : Bool := e.fattrib &&& amArc ≠ 0 || e.fattrib &&& amDir ≠ 0

/-- The array after the second scan; entries past its end are passed over. -/
def weblsGetFileinfo (al : Allocs) (dir : DirList) (s : FsflData) : Option FsflData :=
  if s.nTotalItemCnt = 0 then none
  else
    let read := (((visible true dir.entries).filter isListed).take s.nTotalItemCnt).mapIdx (flItemOf al)
    some { s with flItem := s.flItem.map fun items => read ++ items.drop read.length }

end scan

section page

structure PageLen where
  nDirCnt : Nat
  nFileCnt : Nat
  nMP4FileCnt : Nat
  nSumItemname : Nat
  nSumFilesize : Nat

def FsFileList.name (it : FsFileList) : List UInt8 := it.flname.getD it.fname

def PageLen.add (n : PageLen) (it : FsFileList) : PageLen :=
  if it.fattrib &&& amArc ≠ 0 then
    let n := { n with nSumFilesize := n.nSumFilesize + weblsNumberCount it.fsize.toNat }
    if it.extension = 1 then
      { n with nMP4FileCnt := n.nMP4FileCnt + 1, nSumItemname := n.nSumItemname + it.name.length * 3 }
    else { n with nFileCnt := n.nFileCnt + 1, nSumItemname := n.nSumItemname + it.name.length * 2 }
  else if it.fattrib &&& amDir ≠ 0 then
    { n with nDirCnt := n.nDirCnt + 1, nSumItemname := n.nSumItemname + it.name.length * 2 }
  else n

/-- The entries from `idx_start` to `idx_end`. -/
def pageItems (items : List FsFileList) (nTotalItemCnt : Nat) (lspage : Int) : List FsFileList :=
  let idxStart := ((lspage - 1) * lshtmlFilesPerPage % 2 ^ 32).toNat
  let idxEnd := (idxStart + lshtmlFilesPerPage) % 2 ^ 32
  let idxEnd := if idxEnd < nTotalItemCnt then idxEnd else nTotalItemCnt
  (items.drop idxStart).take (idxEnd - idxStart)

def weblsGetThisPageLength (page : List FsFileList) : PageLen :=
  page.foldl PageLen.add ⟨0, 0, 0, 0, 0⟩

/-- `%02u` and `%04u`. -/
def udec (width n : Nat) : List UInt8 := padLeft 48 width (digits 10 n)

/-- `%04u/%02u/%02u %02u:%02u:%02u` -/
def datetime (fdate ftime : UInt16) : List UInt8 :=
  udec 4 (fdate.toNat / 2 ^ 9 + 1980) ++ ascii "/" ++ udec 2 (fdate.toNat / 2 ^ 5 % 16) ++ ascii "/" ++
    udec 2 (fdate.toNat % 32) ++ ascii " " ++ udec 2 (ftime.toNat / 2 ^ 11) ++ ascii ":" ++
    udec 2 (ftime.toNat / 2 ^ 5 % 64) ++ ascii ":" ++ udec 2 (ftime.toNat % 32 * 2)

def lshtmlBodyD (it : FsFileList) : List UInt8 :=
  ascii "<tr><td>D</td><td><a href=\"" ++ it.name ++ ascii "/ls.html\">" ++ it.name ++
    ascii "</a></td><td>-</td><td>" ++ datetime it.fdate it.ftime ++ ascii "</td><td></td></tr>"

def lshtmlBodyA1 (it : FsFileList) : List UInt8 :=
  ascii "<tr><td>A</td><td><a href=\"" ++ it.name ++ ascii "\">" ++ it.name ++
    ascii "</a></td><td>" ++ digits 10 it.fsize.toNat ++ ascii "</td><td>" ++
    datetime it.fdate it.ftime ++ ascii "</td><td></td></tr>"

def lshtmlBodyA2 (it : FsFileList) : List UInt8 :=
  ascii "<tr><td>A</td><td><a href=\"" ++ it.name ++ ascii "\">" ++ it.name ++
    ascii "</a></td><td>" ++ digits 10 it.fsize.toNat ++ ascii "</td><td>" ++
    datetime it.fdate it.ftime ++ ascii "</td><td><a href=\"javascript:play('" ++ it.name ++
    ascii "')\">&#x25B6;</a></td></tr>"

def lshtmlBodyDSize : Nat := 89 + 9
def lshtmlBodyA1Size : Nat := 80 + 9
def lshtmlBodyA2Size : Nat := 80 + 17 + 34

/-- The row of an entry. -/
def row (it : FsFileList) : List UInt8 :=
  if it.fattrib &&& amDir ≠ 0 then lshtmlBodyD it
  else if it.fattrib &&& amArc ≠ 0 then
    if it.extension = 1 then lshtmlBodyA2 it else lshtmlBodyA1 it
  else []

def lshtmlHead : List UInt8 := ascii "<!DOCTYPE html><html><head><title></title><link rel=\"stylesheet\" type=\"text/css\" href=\"/bootstrap.min.css\"><link rel=\"stylesheet\" type=\"text/css\" href=\"/style.css\"><style>td \x7btext-align: center;vertical-align: middle;\x7d</style><script type=\"text/javascript\">function play(path)\x7bvar popOption = \"width=660, height=400, resizable=no\";PV = window.open(\"\",\"Player\",popOption);var frameString= \"<!DOCTYPE html><html><head><title>Player</title></head><body><video width=\\\"640\\\" height=\\\"360\\\" controls autoplay><source src=\"+path+\" type=\\\"video/mp4\\\">Your browser does not support HTML5 video.</video></body></html>\";PV.document.open();PV.document.write(frameString);PV.document.close();\x7d</script></head><body><div class=\"sub-title\"><h3>File List</h3>When you access this page, recording stops.<br \\>You can resume recording in the menu SDcard &gt; SD Setup.</div><hr>"

def lshtmlHeadPage1 : List UInt8 :=
  ascii "<table style=\"width: 600px;\"><tr><td style=\"text-align: center;\"><script type=\"text/javascript\">"

def lshtmlHeadPageinfo (page maxp : Int) : List UInt8 :=
  ascii "page=" ++ sdec page ++ ascii ";maxp=" ++ sdec maxp ++ ascii ";"

def lshtmlHeadPage2 : List UInt8 :=
  ascii "for(i=1;i<=maxp;i++)\x7bif(i==page)\x7bdocument.write(\"[\"+i+\"] \");\x7delse\x7bdocument.write(\"<a href=\\\"ls.html?page=\"+i+\"\\\">\"+i+\"</a> \");\x7d\x7d</script></tr></td></table><br \\>"

def lshtmlHeadTable : List UInt8 :=
  ascii "<table class=\"table table-bordered\" style=\"width: 600px;\"><colgroup><col style=\"width: 60px;\"><col style=\"width: 200px;\"><col style=\"width: 100px;\"><col style=\"width: 180px;\"><col style=\"width: 60px;\"></colgroup><tr><td>Type</td><td>Name</td><td>Size</td><td>Datetime</td><td>Play</td></tr>"

def lshtmlFoot : List UInt8 := ascii "</table></body></html>"

/-- A page: what was allocated for it, the rows, and the text. -/
structure Html where
  contentsLen : Nat
  rows : List (List UInt8)
  text : List UInt8
  realdataLen : Nat

/-- The bytes stored, the NUL behind the text included. -/
def Html.written (h : Html) : Nat := h.text.length + 1

def makeHtml (items : List FsFileList) (nTotalItemCnt : Nat) (gWeblsPage : Int) : Html :=
  let page := pageItems items nTotalItemCnt gWeblsPage
  let n := weblsGetThisPageLength page
  let pageNum := (nTotalItemCnt + (lshtmlFilesPerPage - 1)) / lshtmlFilesPerPage
  let strbuffer := lshtmlHeadPageinfo gWeblsPage pageNum
  let pageLen := strbuffer.length
  let rows := page.map row
  { contentsLen := lshtmlHead.length + lshtmlHeadPage1.length + lshtmlHeadPage2.length +
      lshtmlHeadTable.length + lshtmlFoot.length + lshtmlBodyA1Size * n.nFileCnt +
      lshtmlBodyA2Size * n.nMP4FileCnt + lshtmlBodyDSize * n.nDirCnt +
      (n.nSumItemname + n.nSumFilesize + pageLen)
    rows := rows
    text := lshtmlHead ++ lshtmlHeadPage1 ++ strbuffer ++ lshtmlHeadPage2 ++ lshtmlHeadTable ++
      rows.flatten ++ lshtmlFoot
    realdataLen := lshtmlHead.length + lshtmlHeadPage1.length + pageLen + lshtmlHeadPage2.length +
      lshtmlHeadTable.length + (rows.map List.length).sum + lshtmlFoot.length }

end page

/-- A `qsort`: whatever its order, it keeps the entries. -/
structure Qsort where
  sort : List FsFileList → List FsFileList
  perm : ∀ items, (sort items).Perm items

/-- The list the page is made from: the one of the request before, or the directory read and
sorted. -/
def FsflData.load (qsort : Qsort) (al : Allocs) (path : List UInt8) (dir : DirList) (s : FsflData) :
    Option FsflData :=
  match weblsFsfldInitCheck al path dir s with
  | none => none
  | some (s, true) => some s
  | some (s, false) =>
    (weblsGetFileinfo al dir s).map fun s => { s with flItem := s.flItem.map qsort.sort }

/-- The state after a request, and the page; `dir` is `none` if it does not open. -/
def enxWeblsGetHtml (qsort : Qsort) (al : Allocs) (path : List UInt8) (dir : Option DirList)
    (gWeblsPage : Int) (s : FsflData) : FsflData × Option Html :=
  match dir.bind fun dir => s.load qsort al path dir with
  | none => (.empty, none)
  | some s =>
    if al.data then (s, some (makeHtml (s.flItem.getD []) s.nTotalItemCnt gWeblsPage))
    else (.empty, none)

end En675.Http
