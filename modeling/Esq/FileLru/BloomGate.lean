import Esq.FileLru.Basic
import Esq.Libs.FileEnumerators

/-!
# bloom filter の門

`utils/file-lru.c` の `file_lru_update_bloom_filter`。root の folder を列挙し、経路の頭の
`lru_root_path_length` byte を除いた残りを filter に加える。`file_lru_borrow` は、filter に無い名前を断る。

列挙の経路は、root が `/` で終わらなければ `/` を足したものから始まる。また `lru_root_path_length` は
`char` なので、128 byte 以上の root では負になり、経路より前の byte から加える。どの木でも名前が通るのは、
列挙の経路の頭が root と同じ長さで、127 byte 以下のときに限る（`bloom_gate_iff`）。
-/

namespace Esq

/-! ## filter の更新 -/

/-- `s + i` から `s` の終わりまで。`below k` は `s` の `k + 1` byte 前である。 -/
def charsFrom (below : Nat → UInt8) (s : List UInt8) (i : Int) : List UInt8 :=
  if 0 ≤ i then s.drop i.toNat else (List.range i.natAbs).reverse.map below ++ s

/-- `file_lru_file_enumerators_cb`。`below` は、`path_name` の前にある byte である。 -/
def fileLruFileEnumeratorsCb (below : List UInt8 → Nat → UInt8) (lruRootPathLength : Int)
    (pathName : List UInt8) (param : Option PathBloomFilter) : Int × Option PathBloomFilter :=
  if (pathName.length : Int) ≤ lruRootPathLength then (0, param)
  else
    (0, (pathBloomFilterAddPath2 param (charsFrom (below pathName) pathName lruRootPathLength)).2)

/-- `file_lru_update_bloom_filter`。`root` は `lru_root_path` の `opendir` の結果である。 -/
def fileLruUpdateBloomFilter (mallocOk : Bool) (below : List UInt8 → Nat → UInt8) (root : FsNode)
    (st : FileLru) : FileLru :=
  if !mallocOk then st
  else
    let bf := esqFileEnumerators (fileLruFileEnumeratorsCb below st.lruRootPathLength)
      st.lruRootPath root (some pathBloomFilterNew)
    { st with lruBloomFilter := bf.2 }

/-! ## 性質 -/

def enumRoot (root : List UInt8) : List UInt8 :=
  let path := root.takeWhile (· ≠ 0)
  if path.getLast? = some 47 then path else path ++ [47]

/-- 更新の後、1024 byte に達しない経路のどの file の名前も、`file_lru_borrow` の門を通る。 -/
def BloomComplete (below : List UInt8 → Nat → UInt8) (entries : FsEntries) (st : FileLru) : Prop :=
  ∀ fileName : CStr, fileName.bytes ∈ entries.within (enumRoot st.lruRootPath).length →
    (fileLruBorrowFind (fileLruUpdateBloomFilter true below (.folder entries) st) fileName).1
      ≠ .blocked

structure RootOk (root : List UInt8) : Prop where
  head : root.takeWhile (· ≠ 0) ≠ []
  length : (enumRoot root).length = root.length
  short : root.length < 2 ^ 7

/-! ## filter の中身 -/

section

variable {below : List UInt8 → Nat → UInt8} {entries : FsEntries} {st : FileLru} {n : List UInt8}

theorem fileLruBorrowFind_blocked {fileName : CStr} : (fileLruBorrowFind st fileName).1 ≠ .blocked ↔
    pathBloomFilterCheckExist2 st.lruBloomFilter fileName.bytes = true := by
  unfold fileLruBorrowFind
  cases pathBloomFilterCheckExist2 st.lruBloomFilter fileName.bytes with
  | false => simp
  | true =>
    simp only [Bool.not_true, Bool.false_eq_true, if_false, ne_eq, iff_true]
    split <;> exact fun h => by cases h

theorem lruBloomFilter_update (hhead : st.lruRootPath.takeWhile (· ≠ 0) ≠ [])
    (hshort : st.lruRootPath.length < lruPathMax)
    (hblocked : entries.Unblocked (enumRoot st.lruRootPath).length) :
    (fileLruUpdateBloomFilter true below (.folder entries) st).lruBloomFilter
      = (entries.within (enumRoot st.lruRootPath).length).foldl (fun bf n =>
          (fileLruFileEnumeratorsCb below st.lruRootPathLength (enumRoot st.lruRootPath ++ n) bf).2)
          (some pathBloomFilterNew) := by
  have hle : (st.lruRootPath.takeWhile (· ≠ 0)).length ≤ st.lruRootPath.length :=
    (List.takeWhile_sublist _).length_le
  have hpos := List.length_pos_iff.mpr hhead
  have hmax : lruPathMax = 256 := rfl
  have hfile : esqFilePathMax = 1024 := rfl
  have hfolder : folderPath (st.lruRootPath.takeWhile (· ≠ 0)) = some (enumRoot st.lruRootPath) := by
    unfold folderPath enumRoot
    dsimp only
    split
    · rfl
    · rw [if_pos (by omega)]
  unfold fileLruUpdateBloomFilter esqFileEnumerators
  rw [if_neg (by decide)]
  dsimp only
  rw [if_neg (by omega), esqEnumPath, hfolder]
  exact esqEnumEntries_eq entries _ hblocked

theorem checkExist_foldl {l : List (List UInt8)} : ∀ {f : PathBloomFilter},
    n ∈ l ∨ f.checkExist n = true → (l.foldl PathBloomFilter.addPath f).checkExist n = true := by
  induction l with
  | nil =>
    intro f h
    exact h.resolve_left List.not_mem_nil
  | cons m l ih =>
    intro f h
    rw [List.foldl_cons]
    refine ih ?_
    rw [List.mem_cons, or_assoc, or_comm, or_assoc] at h
    refine h.imp_right fun h => ?_
    rcases h with h | h
    · exact PathBloomFilter.checkExist_addPath h
    · rw [h]
      exact PathBloomFilter.checkExist_addPath_self

theorem fileLruFileEnumeratorsCb_name {root : List UInt8} (hn : n ≠ []) (f : PathBloomFilter) :
    (fileLruFileEnumeratorsCb below root.length (root ++ n) (some f)).2 = some (f.addPath n) := by
  have hpos := List.length_pos_iff.mpr hn
  unfold fileLruFileEnumeratorsCb charsFrom
  rw [if_neg (by rw [List.length_append]; omega), if_pos (Int.natCast_nonneg _), Int.toNat_natCast,
    List.drop_left]
  simp only [pathBloomFilterAddPath2, hpos, if_true]

theorem foldl_enumeratorsCb {root : List UInt8} : ∀ {l : List (List UInt8)} (f : PathBloomFilter),
    [] ∉ l →
    l.foldl (fun bf n => (fileLruFileEnumeratorsCb below root.length (root ++ n) bf).2) (some f)
      = some (l.foldl PathBloomFilter.addPath f)
  | [], _, _ => rfl
  | n :: l, f, h => by
    rw [List.mem_cons, not_or] at h
    rw [List.foldl_cons, fileLruFileEnumeratorsCb_name (Ne.symm h.1)]
    exact foldl_enumeratorsCb _ h.2

theorem bloomComplete_of_rootOk (hok : RootOk st.lruRootPath)
    (hlength : st.lruRootPathLength = st.lruRootPath.length)
    (hblocked : entries.Unblocked (enumRoot st.lruRootPath).length) :
    BloomComplete below entries st := by
  intro fileName hmem
  have hshort : st.lruRootPath.length < lruPathMax := lt_trans hok.short (by decide)
  have hne : [] ∉ entries.within (enumRoot st.lruRootPath).length := fun hnil =>
    entries.files_ne_nil (List.mem_of_mem_filter hnil)
  rw [fileLruBorrowFind_blocked, lruBloomFilter_update hok.head hshort hblocked, hlength, ← hok.length,
    foldl_enumeratorsCb _ hne]
  have hpos : 0 < fileName.bytes.length := List.length_pos_iff.mpr fun he => hne (he ▸ hmem)
  simp only [pathBloomFilterCheckExist2, hpos, decide_true, Bool.true_and]
  exact checkExist_foldl (Or.inl hmem)

end

/-! ## 通らない名前 -/

def FsEntries.sample : FsEntries := .cons ⟨[97], by decide, by decide, by decide⟩ .file .nil

section

variable {st : FileLru} {below : List UInt8 → Nat → UInt8}

theorem FsEntries.within_sample {len : Nat} (hlen : len + 1 < esqFilePathMax) :
    FsEntries.sample.within len = [[97]] := by
  have hfiles : FsEntries.sample.files = [[97]] := rfl
  unfold within
  rw [hfiles, List.filter_cons_of_pos (by simpa using hlen)]
  rfl

theorem not_checkExist_new (n : List UInt8) :
    pathBloomFilterCheckExist2 (some pathBloomFilterNew) n = false := by
  have h : pathBloomFilterNew.checkExist n = false := by
    simp only [PathBloomFilter.checkExist, pathBloomFilterNew, BloomBitmap.has, UInt8.zero_and]
    rfl
  simp only [pathBloomFilterCheckExist2, h, Bool.and_false]

theorem length_enumRoot_le (root : List UInt8) :
    (enumRoot root).length ≤ (root.takeWhile (· ≠ 0)).length + 1 := by
  unfold enumRoot
  dsimp only
  split
  · exact Nat.le_succ _
  · exact (List.length_append ..).le

theorem not_bloomComplete_of_filter {f : PathBloomFilter}
    (hshort : st.lruRootPath.length < lruPathMax)
    (hfilter : (fileLruUpdateBloomFilter true below (.folder .sample) st).lruBloomFilter = some f)
    (hno : pathBloomFilterCheckExist2 (some f) [97] = false) : ¬ BloomComplete below .sample st := by
  intro hcomplete
  have hle : (st.lruRootPath.takeWhile (· ≠ 0)).length ≤ st.lruRootPath.length :=
    (List.takeWhile_sublist _).length_le
  have hroot := length_enumRoot_le st.lruRootPath
  have hmax : lruPathMax = 256 := rfl
  have hfile : esqFilePathMax = 1024 := rfl
  have hpass := hcomplete ⟨[97], by decide⟩ (by
    rw [FsEntries.within_sample (by omega)]
    exact List.mem_singleton_self _)
  have hpass := fileLruBorrowFind_blocked.mp hpass
  rw [hfilter] at hpass
  exact Bool.false_ne_true (hno.symm.trans hpass)

theorem not_checkExist_of_even {s : List UInt8} (h : (s.map UInt8.toNat).sum % 2 = 0) :
    pathBloomFilterCheckExist2 (some (pathBloomFilterNew.addPath s)) [97] = false := by
  have hno : (pathBloomFilterNew.addPath s).checkExist [97] = false := by
    by_contra hyes
    have hpar := PathBloomFilter.parity_of_checkExist (Bool.not_eq_false _ ▸ hyes)
    rw [h] at hpar
    exact absurd hpar (by decide)
  simp only [pathBloomFilterCheckExist2, hno, Bool.and_false]

def belowByte (b : UInt8) : List UInt8 → Nat → UInt8 := fun _ k => if k = 0 then b else 0

theorem sum_belowByte (b : UInt8) (path : List UInt8) (n : Nat) :
    (((List.range (n + 1)).reverse.map (belowByte b path)).map UInt8.toNat).sum = b.toNat := by
  have hzero : ((List.range n).map fun k => (belowByte b path (k + 1)).toNat).sum = 0 := by
    refine List.sum_eq_zero_iff_forall_eq_nat.mpr fun x hx => ?_
    obtain ⟨k, -, rfl⟩ := List.mem_map.mp hx
    rfl
  rw [List.map_map, List.map_reverse, List.sum_reverse, List.range_succ_eq_map, List.map_cons,
    List.sum_cons, List.map_map]
  exact (congrArg (b.toNat + ·) hzero).trans (Nat.add_zero _)

/-- **除く長さが頭の長さと違うと、file `a` の名前が通らないことがある。** -/
theorem not_bloomComplete (hok : ¬ RootOk st.lruRootPath)
    (hlength : st.lruRootPathLength = Int.bmod st.lruRootPath.length (2 ^ 8))
    (hshort : st.lruRootPath.length < lruPathMax) :
    ∃ below, ¬ BloomComplete below .sample st := by
  have hmax : lruPathMax = 256 := rfl
  have hfile : esqFilePathMax = 1024 := rfl
  have hle : (st.lruRootPath.takeWhile (· ≠ 0)).length ≤ st.lruRootPath.length :=
    (List.takeWhile_sublist _).length_le
  have hroot := length_enumRoot_le st.lruRootPath
  by_cases hhead : st.lruRootPath.takeWhile (· ≠ 0) = []
  · -- 空の文字列からは列挙が始まらない
    refine ⟨fun _ _ => 0, not_bloomComplete_of_filter hshort ?_ (not_checkExist_new [97])⟩
    unfold fileLruUpdateBloomFilter esqFileEnumerators
    rw [if_neg (by decide)]
    dsimp only
    rw [if_pos (Or.inl (by rw [hhead]; rfl))]
  · have hfilter : ∀ below,
        (fileLruUpdateBloomFilter true below (.folder .sample) st).lruBloomFilter
          = (fileLruFileEnumeratorsCb below st.lruRootPathLength (enumRoot st.lruRootPath ++ [97])
              (some pathBloomFilterNew)).2 := by
      intro below
      rw [lruBloomFilter_update hhead hshort (by
        simp only [FsEntries.sample, FsEntries.Unblocked, ite_self]), FsEntries.within_sample (by omega)]
      rfl
    have hlen : (enumRoot st.lruRootPath ++ [97]).length = (enumRoot st.lruRootPath).length + 1 :=
      List.length_append ..
    by_cases hsmall : st.lruRootPath.length < 2 ^ 7
    · have hnat : st.lruRootPathLength = st.lruRootPath.length := by
        rw [hlength, Int.bmod_def]
        omega
      refine ⟨fun _ _ => 0, ?_⟩
      rcases lt_trichotomy (enumRoot st.lruRootPath).length st.lruRootPath.length with hlt | heq | hgt
      · -- 名前まで除いてしまう
        refine not_bloomComplete_of_filter hshort ((hfilter _).trans ?_) (not_checkExist_new [97])
        unfold fileLruFileEnumeratorsCb
        rw [if_pos (by omega)]
      · exact absurd ⟨hhead, heq, hsmall⟩ hok
      · -- 足された `/` が残る
        have hslash : enumRoot st.lruRootPath = st.lruRootPath ++ [47] := by
          have hwhole : st.lruRootPath.takeWhile (· ≠ 0) = st.lruRootPath :=
            (List.takeWhile_sublist _).eq_of_length (by omega)
          unfold enumRoot at hgt ⊢
          dsimp only at hgt ⊢
          rw [hwhole] at hgt ⊢
          split
          · next hlast =>
            rw [if_pos hlast] at hgt
            omega
          · rfl
        have hsum : (([47, 97] : List UInt8).map UInt8.toNat).sum % 2 = 0 := by decide
        refine not_bloomComplete_of_filter hshort ((hfilter _).trans ?_) (not_checkExist_of_even hsum)
        unfold fileLruFileEnumeratorsCb charsFrom
        rw [if_neg (by omega), hnat, if_pos (Int.natCast_nonneg _), Int.toNat_natCast, hslash,
          List.append_assoc, List.drop_left]
        rfl
    · -- 負の長さでは、経路より前の byte から加える
      obtain ⟨n, hn⟩ : ∃ n : Nat, st.lruRootPathLength = -((n : Int) + 1) := by
        refine ⟨255 - st.lruRootPath.length, ?_⟩
        rw [hlength, Int.bmod_def]
        omega
      let S := ((enumRoot st.lruRootPath ++ [97]).map UInt8.toNat).sum
      let b := UInt8.ofNat (S % 2)
      refine ⟨belowByte b, not_bloomComplete_of_filter hshort ((hfilter _).trans ?_)
        (not_checkExist_of_even (s := (List.range (n + 1)).reverse.map (belowByte b
          (enumRoot st.lruRootPath ++ [97])) ++ (enumRoot st.lruRootPath ++ [97])) ?_)⟩
      · have habs : (-((n : Int) + 1)).natAbs = n + 1 := by omega
        unfold fileLruFileEnumeratorsCb charsFrom
        rw [if_neg (by omega), hn, if_neg (by omega), habs]
        simp only [pathBloomFilterAddPath2]
        rw [if_pos (by rw [List.length_append, hlen]; omega)]
      · rw [List.map_append, List.sum_append, sum_belowByte]
        have hb : b.toNat = S % 2 := by
          show (UInt8.ofNat (S % 2)).toNat = S % 2
          rw [UInt8.toNat_ofNat']
          omega
        rw [hb]
        show (S % 2 + S) % 2 = 0
        omega

end

/-! ## root の条件 -/

/--
**`file_lru_setup` の受けた root で、どの木のどの名前も門を通るのは、列挙の経路の頭が root と同じ長さで、
127 byte 以下のときであり、そのときに限る。**
-/
theorem bloom_gate_iff {stat : List UInt8 → RootStat} {st st' : FileLru} {root : List UInt8}
    {max : Int32} (hset : fileLruSetup stat st root max = (none, st')) :
    (∀ below entries, entries.Unblocked (enumRoot root).length → BloomComplete below entries st')
      ↔ RootOk root := by
  have hsetup : root.length < lruPathMax ∧ st'.lruRootPath = root ∧
      st'.lruRootPathLength = Int.bmod root.length (2 ^ 8) := by
    unfold fileLruSetup at hset
    split at hset
    · cases hset
    · split at hset
      · cases hset
      · cases hset
      · obtain ⟨-, rfl⟩ := Prod.mk.inj hset
        refine ⟨by omega, rfl, ?_⟩
        dsimp only
  obtain ⟨hshort, rfl, hlength⟩ := hsetup
  constructor
  · intro hall
    by_contra hok
    obtain ⟨below, hnot⟩ := not_bloomComplete hok hlength hshort
    refine hnot (hall below .sample ?_)
    simp only [FsEntries.sample, FsEntries.Unblocked, ite_self]
  · intro hok below entries hblocked
    refine bloomComplete_of_rootOk hok ?_ hblocked
    have hsmall := hok.short
    rw [hlength, Int.bmod_def]
    omega

theorem fileLruSetup_folder (stat : List UInt8 → RootStat) (st : FileLru) {root : List UInt8}
    (max : Int32) (hroot : root.length ≠ 0 ∧ root.length < lruPathMax)
    (hstat : stat (root.takeWhile (· ≠ 0)) = .folder) :
    fileLruSetup stat st root max = (none, (fileLruSetup stat st root max).2) := by
  unfold fileLruSetup
  rw [if_neg (by omega), hstat]

/-- root が `d/` のとき。 -/
theorem bloom_gate_iff_sample :
    (∀ below entries, entries.Unblocked (enumRoot [100, 47]).length →
      BloomComplete below entries (fileLruSetup (fun _ => .folder) .init [100, 47] 4096).2)
      ↔ RootOk [100, 47] :=
  bloom_gate_iff (fileLruSetup_folder (fun _ => .folder) .init 4096 (by decide) rfl)

/-- **root が `d` で、その中に file `a` があると、更新の後も名前 `a` は断られる。** -/
theorem bloom_gate_needs_slash : ∃ st, fileLruSetup (fun _ => .folder) .init [100] 4096 = (none, st) ∧
    FsEntries.sample.Unblocked (enumRoot [100]).length ∧
    [97] ∈ FsEntries.sample.within (enumRoot [100]).length ∧
    (fileLruBorrowFind (fileLruUpdateBloomFilter true (fun _ _ => 0) (.folder .sample) st)
      ⟨[97], by decide⟩).1 = .blocked := by
  refine ⟨_, fileLruSetup_folder (fun _ => .folder) .init 4096 (by decide) rfl, ?_, ?_, ?_⟩
  · simp only [FsEntries.sample, FsEntries.Unblocked, ite_self]
  · rw [FsEntries.within_sample (by decide)]
    exact List.mem_singleton_self _
  · rfl

end Esq
