import Esq.Infra.LittleEndian
import Esq.Infra.SearchForest
import Esq.Libs.Memcmp
import Esq.Libs.PathBloomFilter
import Esq.Libs.Sscanf

/-!
# file の cache

`utils/file-lru.c`。

`malloc` した `file_lru_t` には通し番号をつけて区別する。`free` した番号は `freed` に残る。

`file_lru_borrow`・`file_lru_return`・`file_lru_purge_all` は途中で spinlock を離す。lock を持つ間を
一つの関数にし、呼び手がその間のどこにいるかを `LruPc` で表す。どの呼び手がいつ進むかは
外から与える（`LruOp`）ので、lock を単位とするどの並びも実行の列になる。

`int` の値は 32 bit に収める。
-/

namespace Esq

open Infra

/-! ## `file_lru_t` -/

def lruPathMax : Nat := 256

@[irreducible] def fileLruMgc0 : UInt32 := 0xac12ac34

@[irreducible] def fileLruMgc1 : UInt32 := 0xab45cd45

/-- `file_lru_t`。`prev`・`next`・`rb` の繋がりは、列と木が持つ。 -/
structure FileLruEntry where
  magic0 : UInt32 := fileLruMgc0
  borrowCnt : Int := 0
  /-- `FILE_LRU_FLAGS_PURGED` -/
  purged : Bool := false
  fileNameHash : Int
  fileName : CStr
  fileSize : Int
  fileData : List UInt8
  magic1 : UInt32 := fileLruMgc1

def FileLruEntry.fileNameLength (p : FileLruEntry) : Nat := p.fileName.bytes.length

def fileLruNameSums (s : List UInt8) : UInt8 × UInt8 × UInt8 × UInt8 :=
  s.zipIdx.foldl (fun (h0, h1, h2, h3) (c, i) =>
    (if i &&& 1 ≠ 0 then h0 + c else h0, if i &&& 3 ≠ 0 then h1 + c else h1,
      if i &&& 2 ≠ 0 then h2 + c else h2, if i &&& 6 ≠ 0 then h3 + c else h3)) (0, 1, 2, 3)

@[irreducible] def fileLruNameHash (s : List UInt8) : Int :=
  let (h0, h1, h2, h3) := fileLruNameSums s
  toInt32 (h0.toNat + h1.toNat * 2 ^ 8 + h2.toNat * 2 ^ 16 + h3.toNat * 2 ^ 24)

structure FileLruKey where
  fileNameHash : Int
  fileName : CStr
deriving DecidableEq

def FileLruEntry.key (p : FileLruEntry) : FileLruKey := ⟨p.fileNameHash, p.fileName⟩

def fileLruNameCmp (a b : FileLruKey) : Int :=
  let d := toInt32 (a.fileNameHash - b.fileNameHash)
  if d ≠ 0 then d
  else
    let d := (a.fileName.bytes.length : Int) - b.fileName.bytes.length
    if d ≠ 0 then d else strcmp a.fileName b.fileName

def fileLruKeyOf (fileName : CStr) : FileLruKey := ⟨fileLruNameHash fileName.bytes, fileName⟩

/-! ## 静的な変数 -/

structure FileLru where
  lruSizeMax : Int
  lruSizeTotal : Int
  /-- `lru_root_path` に写した文字列 -/
  lruRootPath : List UInt8
  /-- `char` である -/
  lruRootPathLength : Int
  lruBloomFilter : Option PathBloomFilter
  entry : Nat → FileLruEntry
  /-- 次に `malloc` する番号 -/
  next : Nat
  /-- `free` した番号 -/
  freed : List Nat
  /-- `file_lru_head` から `file_lru_tail` まで -/
  list : List Nat
  /-- `file_lru_purged_head` から `file_lru_purged_tail` まで -/
  purgedList : List Nat
  rb : SearchForest Nat

def FileLru.init : FileLru where
  lruSizeMax := 4096
  lruSizeTotal := 0
  lruRootPath := [46, 47]
  lruRootPathLength := 2
  lruBloomFilter := none
  entry _ := { fileNameHash := 0, fileName := CStr.empty, fileSize := 0, fileData := [] }
  next := 0
  freed := []
  list := []
  purgedList := []
  rb := .empty

namespace FileLru

variable (st : FileLru)

def setEntry (p : Nat) (e : FileLruEntry) : FileLru :=
  { st with entry := Function.update st.entry p e }

def rbFind (k : FileLruKey) : Option Nat :=
  st.rb.find fun p => fileLruNameCmp k (st.entry p).key

def rbInsert (io : ForestIo Nat) (p : Nat) : Option FileLru :=
  (st.rb.insert io (fun x => fileLruNameCmp (st.entry p).key (st.entry x).key) p).map fun rb =>
    { st with rb }

def alloc (e : FileLruEntry) : FileLru := { st.setEntry st.next e with next := st.next + 1 }

def free (p : Nat) : FileLru := { st with freed := p :: st.freed }

def borrowInc (p : Nat) : FileLru :=
  st.setEntry p { st.entry p with borrowCnt := toInt32 ((st.entry p).borrowCnt + 1) }

def leave (io : ForestIo Nat) (p : Nat) : Option FileLru :=
  (st.rb.remove io p).map fun rb => { st with list := st.list.erase p, rb }

def joinPurged (p : Nat) : FileLru :=
  { st.setEntry p { st.entry p with purged := true } with purgedList := p :: st.purgedList }

end FileLru

/-! ## disk から読む -/

structure DiskStat where
  /-- `S_IFREG` である -/
  isReg : Bool
  stSize : Int

/-- `file_lru_load_from_disk` の間に呼ばれるものの結果。 -/
structure DiskIo where
  stat : List UInt8 → Option DiskStat
  mallocOk : Bool
  openOk : Bool
  /-- 読めた byte -/
  read : List UInt8

def FileLruEntry.ofFile (fileName : CStr) (fileSize : Int) (fileData : List UInt8) :
    FileLruEntry where
  fileNameHash := fileLruNameHash fileName.bytes
  fileName := fileName
  fileSize := fileSize
  fileData := fileData

theorem FileLruEntry.key_ofFile (fileName : CStr) (fileSize : Int) (fileData : List UInt8) :
    (ofFile fileName fileSize fileData).key = fileLruKeyOf fileName := by
  simp only [ofFile, key, fileLruKeyOf]

def FileLru.pathOf (st : FileLru) (fileName : CStr) : List UInt8 :=
  st.lruRootPath.takeWhile (· ≠ 0) ++ 47 :: fileName.bytes

def fileLruLoadFromDisk (io : DiskIo) (st : FileLru) (fileName : CStr) : Option Nat × FileLru :=
  if (st.pathOf fileName).length ≥ lruPathMax then (none, st)
  else match io.stat (st.pathOf fileName) with
    | none => (none, st)
    | some buf =>
      let fileSize := toInt32 buf.stSize
      if !buf.isReg then (none, st)
      else if fileSize ≤ 0 then (none, st)
      else if st.lruSizeMax > 0 ∧ fileSize > st.lruSizeMax then (none, st)
      else if !io.mallocOk then (none, st)
      else
        let p := st.next
        let st := st.alloc (.ofFile fileName fileSize io.read)
        if !io.openOk then (none, st.free p)
        else if (io.read.length : Int) ≠ fileSize then (none, st.free p)
        else (some p, st)

/-! ## lock を持つ間 -/

inductive LruFound where
  | blocked
  | hit (p : Nat)
  | miss

def fileLruBorrowFind (st : FileLru) (fileName : CStr) : LruFound × FileLru :=
  if !pathBloomFilterCheckExist2 st.lruBloomFilter fileName.bytes then (.blocked, st)
  else match st.rbFind (fileLruKeyOf fileName) with
    | some p => (.hit p, st.borrowInc p)
    | none => (.miss, st)

/-- `__file_lru_purge` の loop。列は `file_lru_tail` から `file_lru_head` へ向かう。 -/
def fileLruPurgeLoop (io : ForestIo Nat) (fileSize : Int) : List Nat → FileLru → Option FileLru
  | [], st => some st
  | p :: ps, st =>
    if toInt32 (st.lruSizeMax - st.lruSizeTotal) < fileSize then
      match st.leave io p with
      | none => none
      | some st =>
        let st := { st with lruSizeTotal := toInt32 (st.lruSizeTotal - (st.entry p).fileSize) }
        if (st.entry p).borrowCnt ≠ (0 : Int) then fileLruPurgeLoop io fileSize ps (st.joinPurged p)
        else fileLruPurgeLoop io fileSize ps (st.free p)
    else some st

def fileLruPurge (io : ForestIo Nat) (st : FileLru) (fileSize : Int) : Option FileLru :=
  fileLruPurgeLoop io fileSize st.list.reverse st

/-- `file_lru_borrow` の、二つめの lock の間の結果。 -/
inductive LruInserted where
  /-- 先に入っていた。`p` を `free` する -/
  | found (e : Nat)
  /-- 大きさがあふれた。`p` を `free` する -/
  | overflow
  | inserted

def fileLruBorrowJoin (io : ForestIo Nat) (st : FileLru) (p : Nat) : Option FileLru :=
  let st := st.borrowInc p
  let st := { st with lruSizeTotal := toInt32 (st.lruSizeTotal + (st.entry p).fileSize) }
  (st.rbInsert io p).map fun st => { st with list := p :: st.list }

def FileLru.newTotal (st : FileLru) (p : Nat) : Int :=
  toInt32 (st.lruSizeTotal + (st.entry p).fileSize)

/-- 上限があって収まらないときに、場所を空ける所。 -/
def fileLruMakeRoom (io : ForestIo Nat) (st : FileLru) (p : Nat) : Option FileLru :=
  if 0 < st.lruSizeMax ∧ st.newTotal p > st.lruSizeMax then
    fileLruPurge io st (st.entry p).fileSize
  else some st

def fileLruBorrowInsert (io : ForestIo Nat) (st : FileLru) (p : Nat) :
    Option (LruInserted × FileLru) :=
  match st.rbFind (st.entry p).key with
  | some e => some (.found e, { st.borrowInc e with list := e :: st.list.erase e })
  | none =>
    if 0 < st.lruSizeMax ∧ st.newTotal p < st.lruSizeTotal then some (.overflow, st)
    else ((fileLruMakeRoom io st p).bind fun st => fileLruBorrowJoin io st p).map fun st =>
      (.inserted, st)

/-- `file_lru_purge_all` の loop。借りられていない `p` に着いたら、`free` するために lock を離す。 -/
def fileLruPurgeAllLoop (io : ForestIo Nat) : List Nat → FileLru → Option (Option Nat × FileLru)
  | [], st => some (none, st)
  | p :: ps, st =>
    match st.leave io p with
    | none => none
    | some st =>
      if (st.entry p).borrowCnt ≠ 0 then fileLruPurgeAllLoop io ps (st.joinPurged p)
      else some (some p, st)

def fileLruPurgeAll (io : ForestIo Nat) (st : FileLru) : Option (Option Nat × FileLru) :=
  fileLruPurgeAllLoop io st.list st

/-- `file_lru_return` の lock の間。`free` するときは `true` を返す。 -/
def fileLruReturn (st : FileLru) (p : Nat) : Bool × FileLru :=
  let st := st.setEntry p
    { st.entry p with borrowCnt := toInt32 ((st.entry p).borrowCnt - 1) }
  if (st.entry p).borrowCnt < 0 then (false, st)
  else if !(st.entry p).purged then (false, st)
  else if (st.entry p).borrowCnt > 0 then (false, st)
  else (true, { st with purgedList := st.purgedList.erase p })

inductive RootStat where
  | failed
  | folder
  | other

/-- `file_lru_setup`。`stat` は NUL までの path の `stat` の結果である。 -/
def fileLruSetup (stat : List UInt8 → RootStat) (st : FileLru) (rootPath : List UInt8)
    (lruSizeMaxInByte : Int32) : Option String × FileLru :=
  if rootPath.length = 0 ∨ rootPath.length ≥ lruPathMax then (some "invalid root_path string", st)
  else match stat (rootPath.takeWhile (· ≠ 0)) with
    | .failed => (some "failed to get target stat", st)
    | .other => (some "not a good folder target", st)
    | .folder =>
      (none, { st with
        lruRootPath := rootPath
        lruRootPathLength := Int.bmod rootPath.length (2 ^ 8)
        lruSizeMax := lruSizeMaxInByte.toInt })

/-! ## 呼び手 -/

inductive LruPc where
  | idle
  | borrow (fileName : CStr)
  /-- 見つからなかったので disk から読む -/
  | load (fileName : CStr)
  /-- 読んだ `p` を入れる -/
  | insert (p : Nat)
  /-- lock を離して `free(p)` する。`again` なら `file_lru_purge_all` に戻る -/
  | free (p : Nat) (again : Bool)
  | giveBack (p : Nat)
  | purgeAll
deriving DecidableEq

/-- `borrowed` は、まだ返していない借り手と entry である。 -/
structure LruWorld where
  lru : FileLru
  pc : Nat → LruPc
  borrowed : List (Nat × Nat)

def LruWorld.init : LruWorld := ⟨.init, fun _ => .idle, []⟩

structure LruIo where
  disk : DiskIo
  rb : ForestIo Nat

inductive LruCall where
  | borrow (fileName : CStr)
  | giveBack (p : Nat)
  | purgeAll

inductive LruOp where
  /-- 呼び手 `c` が関数を呼ぶ -/
  | call (c : Nat) (f : LruCall)
  /-- 呼び手 `c` が、次に lock を離すか終わるまで進む -/
  | run (c : Nat) (io : LruIo)
  | setup (stat : List UInt8 → RootStat) (rootPath : List UInt8) (lruSizeMaxInByte : Int32)
  /-- `file_lru_update_bloom_filter` か `file_lru_remove_bloom_filter` が filter を替える -/
  | setBloom (bf : Option PathBloomFilter)

namespace LruWorld

variable (w : LruWorld)

def goto (c : Nat) (pc : LruPc) : LruWorld := { w with pc := Function.update w.pc c pc }

def lend (c p : Nat) : LruWorld := { w with borrowed := (c, p) :: w.borrowed }

def outstanding (p : Nat) : Nat := (w.borrowed.map Prod.snd).count p

end LruWorld

/-- 関数の、lock の前まで。`free` した block の中身は読めないので、そこで終わる。 -/
def lruCall (w : LruWorld) (c : Nat) : LruCall → Option LruWorld
  | .borrow fileName =>
    if w.pc c ≠ .idle then none
    else if fileName.strnlen lruPathMax = 0 ∨ fileName.strnlen lruPathMax ≥ lruPathMax then some w
    else some (w.goto c (.borrow fileName))
  | .giveBack p =>
    if w.pc c ≠ .idle ∨ p ≥ w.lru.next ∨ p ∈ w.lru.freed then none
    else if (w.lru.entry p).magic0 = fileLruMgc0 ∧ (w.lru.entry p).magic1 = fileLruMgc1 then
      some (w.goto c (.giveBack p))
    else some w
  | .purgeAll => if w.pc c ≠ .idle then none else some (w.goto c .purgeAll)

def lruRun (w : LruWorld) (c : Nat) (io : LruIo) : Option LruWorld :=
  match w.pc c with
  | .idle => none
  | .borrow fileName =>
    match fileLruBorrowFind w.lru fileName with
    | (.blocked, lru) => some ({ w with lru }.goto c .idle)
    | (.hit p, lru) => some (({ w with lru }.goto c .idle).lend c p)
    | (.miss, lru) => some ({ w with lru }.goto c (.load fileName))
  | .load fileName =>
    match fileLruLoadFromDisk io.disk w.lru fileName with
    | (none, lru) => some ({ w with lru }.goto c .idle)
    | (some p, lru) => some ({ w with lru }.goto c (.insert p))
  | .insert p =>
    match fileLruBorrowInsert io.rb w.lru p with
    | none => none
    | some (.found e, lru) => some (({ w with lru }.goto c (.free p false)).lend c e)
    | some (.overflow, lru) => some ({ w with lru }.goto c (.free p false))
    | some (.inserted, lru) => some (({ w with lru }.goto c .idle).lend c p)
  | .free p again =>
    some ({ w with lru := w.lru.free p }.goto c (if again then .purgeAll else .idle))
  | .giveBack p =>
    match fileLruReturn w.lru p with
    | (last, lru) => some ({ w with lru, borrowed := w.borrowed.erase (c, p) }.goto c
        (if last then .free p false else .idle))
  | .purgeAll =>
    match fileLruPurgeAll io.rb w.lru with
    | none => none
    | some (none, lru) => some ({ w with lru }.goto c .idle)
    | some (some p, lru) => some ({ w with lru }.goto c (.free p true))

/-- 一歩。落ちるときと、進めないときは `none` である。 -/
def lruStep (w : LruWorld) : LruOp → Option LruWorld
  | .call c f => lruCall w c f
  | .run c io => lruRun w c io
  | .setup stat rootPath max => some { w with lru := (fileLruSetup stat w.lru rootPath max).2 }
  | .setBloom bf => some { w with lru := { w.lru with lruBloomFilter := bf } }

end Esq
