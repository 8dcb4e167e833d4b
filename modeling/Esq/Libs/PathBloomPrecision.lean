import Esq.Libs.PathBloomFilter

/-!
# 経路の bloom filter の精度

bitmap の bit の位置は `hash & 0x7` ではなく `hash & 0x3` で決まるので、下から三つ目の bit だけが違う hash は
同じ bit を使う（`BloomBitmap.has_foldl_mark`）。このため、加えた経路のどれとも hash の違う経路が見つかる。
-/

namespace Esq

def esqPathBloomMax : Nat := 1024

def pathBloomFilterAddPath (ptr : Option PathBloomFilter) (path : List UInt8) :
    Int × Option PathBloomFilter :=
  match ptr with
  | none => (esqErrorParam, none)
  | some p =>
    let path := strn path esqPathBloomMax
    if path.length = 0 ∨ esqPathBloomMax ≤ path.length then (esqErrorParam, some p)
    else (0, some (p.addPath path))

def pathBloomFilterCheckExist (ptr : Option PathBloomFilter) (path : List UInt8) : Bool :=
  match ptr with
  | none => false
  | some p =>
    let path := strn path esqPathBloomMax
    if path.length = 0 ∨ esqPathBloomMax ≤ path.length then false else p.checkExist path

def pathBloomHash : Fin 3 → List UInt8 → UInt32
  | 0 => pathBloomHash0
  | 1 => pathBloomHash1
  | 2 => pathBloomHash2

def PathBloomFilter.bitmap (p : PathBloomFilter) : Fin 3 → BloomBitmap
  | 0 => p.bitmap0
  | 1 => p.bitmap1
  | 2 => p.bitmap2

/-- 経路の渡し方。NUL で終わる文字列か、長さのついた byte である。 -/
inductive BloomPath where
  | str (buf : List UInt8)
  | bytes (path : List UInt8)

namespace BloomPath

def path : BloomPath → List UInt8
  | .str buf => strn buf esqPathBloomMax
  | .bytes path => path

def Accepted : BloomPath → Prop
  | .str buf => 0 < (strn buf esqPathBloomMax).length ∧
    (strn buf esqPathBloomMax).length < esqPathBloomMax
  | .bytes path => 0 < path.length

instance : DecidablePred Accepted := fun x => by
  cases x
  · exact inferInstanceAs (Decidable (_ ∧ _))
  · exact inferInstanceAs (Decidable (_ < _))

/-- `path_bloom_filter_add_path` か `path_bloom_filter_add_path2` -/
def add (ptr : Option PathBloomFilter) : BloomPath → Int × Option PathBloomFilter
  | .str buf => pathBloomFilterAddPath ptr buf
  | .bytes path => pathBloomFilterAddPath2 ptr path

/-- `path_bloom_filter_check_exist` か `path_bloom_filter_check_exist2` -/
def check (ptr : Option PathBloomFilter) : BloomPath → Bool
  | .str buf => pathBloomFilterCheckExist ptr buf
  | .bytes path => pathBloomFilterCheckExist2 ptr path

end BloomPath

def bloomRun (adds : List BloomPath) : Option PathBloomFilter :=
  adds.foldl (fun ptr x => (x.add ptr).2) (some pathBloomFilterNew)

def bloomAdded (adds : List BloomPath) : List (List UInt8) :=
  (adds.filter fun x => decide x.Accepted).map BloomPath.path

def SameBit (h k : UInt32) : Prop := h.toNat / 8 = k.toNat / 8 ∧ h.toNat % 4 = k.toNat % 4

section

variable {h k : UInt32} {p : PathBloomFilter} {x : BloomPath} {adds : List BloomPath}
  {paths : List (List UInt8)} {path : List UInt8}

/-! ## bit の位置 -/

theorem BloomBitmap.mask_and_mask : mask h &&& mask k ≠ 0 ↔ h &&& 3 = k &&& 3 := by
  unfold mask
  rcases low_cases h with h1 | h1 | h1 | h1 <;> rcases low_cases k with h2 | h2 | h2 | h2 <;>
    rw [h1, h2] <;> decide

theorem or_and_distrib (a b m : UInt8) : (a ||| b) &&& m = (a &&& m) ||| (b &&& m) := by
  refine UInt8.toBitVec_inj.mp ?_
  ext i hi
  simp only [UInt8.toBitVec_and, UInt8.toBitVec_or, BitVec.getElem_and, BitVec.getElem_or]
  exact Bool.and_or_distrib_right _ _ _

theorem or_and_ne_zero_iff {a b m : UInt8} : (a ||| b) &&& m ≠ 0 ↔ a &&& m ≠ 0 ∨ b &&& m ≠ 0 := by
  rw [or_and_distrib, ne_eq, UInt8.or_eq_zero_iff, not_and_or]

theorem sameBit_iff : SameBit h k ↔ (k >>> 3).toNat = (h >>> 3).toNat ∧ h &&& 3 = k &&& 3 := by
  have hshift : ∀ x : UInt32, (x >>> 3).toNat = x.toNat / 8 := fun x => by
    rw [UInt32.toNat_shiftRight]
    exact Nat.shiftRight_eq_div_pow _ 3
  have hlow : ∀ x : UInt32, (x &&& 3).toNat = x.toNat % 4 := fun x => by
    rw [UInt32.toNat_and]
    exact Nat.and_two_pow_sub_one_eq_mod _ 2
  rw [hshift, hshift, ← UInt32.toNat_inj, hlow, hlow]
  exact and_congr_left' eq_comm

theorem BloomBitmap.has_mark_iff {m : BloomBitmap} :
    (m.mark h).has k = true ↔ m.has k = true ∨ SameBit h k := by
  rw [has_iff, has_iff, sameBit_iff]
  unfold mark
  by_cases he : (k >>> 3).toNat = (h >>> 3).toNat
  · rw [he, Function.update_self, or_and_ne_zero_iff, mask_and_mask]
    exact or_congr_right (and_iff_right rfl).symm
  · rw [Function.update_of_ne he]
    exact (or_iff_left fun hs => he hs.1).symm

/-- **順に立てた bit は、立てた hash のどれかと、下から三つ目の bit の他は等しい hash のものである。** -/
theorem BloomBitmap.has_foldl_mark : ∀ (hs : List UInt32) (m : BloomBitmap),
    (hs.foldl mark m).has k = true ↔ m.has k = true ∨ ∃ h ∈ hs, SameBit h k
  | [], m => (or_iff_left fun ⟨_, hh, _⟩ => by cases hh).symm
  | h :: hs, m => by
    rw [List.foldl_cons, has_foldl_mark hs, has_mark_iff, List.exists_mem_cons_iff, or_assoc]

/-! ## filter -/

theorem PathBloomFilter.checkExist_iff :
    p.checkExist path = true ↔ ∀ k, (p.bitmap k).has (pathBloomHash k path) = true := by
  unfold checkExist
  rw [Bool.and_eq_true, Bool.and_eq_true]
  constructor
  · rintro ⟨⟨h0, h1⟩, h2⟩ k
    match k with
    | 0 => exact h0
    | 1 => exact h1
    | 2 => exact h2
  · exact fun h => ⟨⟨h 0, h 1⟩, h 2⟩

theorem PathBloomFilter.bitmap_addPath (p : PathBloomFilter) (path : List UInt8) (k : Fin 3) :
    (p.addPath path).bitmap k = (p.bitmap k).mark (pathBloomHash k path) := by
  match k with
  | 0 => rfl
  | 1 => rfl
  | 2 => rfl

theorem PathBloomFilter.bitmap_foldl (k : Fin 3) : ∀ (paths : List (List UInt8))
    (p : PathBloomFilter),
    (paths.foldl addPath p).bitmap k
      = (paths.map (pathBloomHash k)).foldl BloomBitmap.mark (p.bitmap k)
  | [], _ => rfl
  | path :: paths, p => by
    rw [List.foldl_cons, bitmap_foldl k paths, bitmap_addPath, List.map_cons, List.foldl_cons]

theorem PathBloomFilter.bitmap_new (k : Fin 3) : pathBloomFilterNew.bitmap k = fun _ => 0 := by
  match k with
  | 0 => rfl
  | 1 => rfl
  | 2 => rfl

theorem BloomPath.accepted_str (buf : List UInt8) : (BloomPath.str buf).Accepted ↔
    ¬ ((strn buf esqPathBloomMax).length = 0 ∨
      esqPathBloomMax ≤ (strn buf esqPathBloomMax).length) := by
  show 0 < (strn buf esqPathBloomMax).length ∧
    (strn buf esqPathBloomMax).length < esqPathBloomMax ↔ _
  omega

theorem BloomPath.add_accepted {x : BloomPath} (hx : x.Accepted) (p : PathBloomFilter) :
    (x.add (some p)).2 = some (p.addPath x.path) := by
  cases x with
  | str buf => exact congrArg Prod.snd (if_neg ((accepted_str buf).mp hx))
  | bytes path => exact congrArg Prod.snd (if_pos hx)

theorem BloomPath.add_refused {x : BloomPath} (hx : ¬ x.Accepted) (p : PathBloomFilter) :
    (x.add (some p)).2 = some p := by
  cases x with
  | str buf => exact congrArg Prod.snd (if_pos (not_not.mp (mt (accepted_str buf).mpr hx)))
  | bytes path => exact congrArg Prod.snd (if_neg hx)

theorem BloomPath.check_some (x : BloomPath) (p : PathBloomFilter) :
    x.check (some p) = true ↔ x.Accepted ∧ p.checkExist x.path = true := by
  cases x with
  | str buf =>
    unfold check pathBloomFilterCheckExist
    dsimp only
    rw [accepted_str]
    split
    next hbad => exact iff_of_false Bool.false_ne_true fun h => h.1 hbad
    next hok => exact (and_iff_right hok).symm
  | bytes path =>
    unfold check pathBloomFilterCheckExist2
    dsimp only
    rw [Bool.and_eq_true, decide_eq_true_iff]
    rfl

theorem bloomRun_eq (adds : List BloomPath) :
    bloomRun adds = some ((bloomAdded adds).foldl PathBloomFilter.addPath pathBloomFilterNew) := by
  suffices h : ∀ p, adds.foldl (fun ptr x => (x.add ptr).2) (some p)
      = some ((bloomAdded adds).foldl PathBloomFilter.addPath p) from h _
  induction adds with
  | nil => exact fun _ => rfl
  | cons x adds ih =>
    intro p
    rw [List.foldl_cons]
    by_cases hx : x.Accepted
    · have hcons : bloomAdded (x :: adds) = x.path :: bloomAdded adds :=
        congrArg (List.map BloomPath.path) (List.filter_cons_of_pos (decide_eq_true hx))
      rw [BloomPath.add_accepted hx, ih, hcons, List.foldl_cons]
    · have hcons : bloomAdded (x :: adds) = bloomAdded adds :=
        congrArg (List.map BloomPath.path) (List.filter_cons_of_neg (by simpa using hx))
      rw [BloomPath.add_refused hx, ih, hcons]

theorem check_bloomRun (x : BloomPath) : x.check (bloomRun adds) = true ↔ x.Accepted ∧
    ∀ k, ∃ q ∈ bloomAdded adds, SameBit (pathBloomHash k q) (pathBloomHash k x.path) := by
  have hzero : ∀ h, BloomBitmap.has (fun _ => 0) h = false := fun h =>
    decide_eq_false (not_not.mpr UInt8.zero_and)
  rw [bloomRun_eq, BloomPath.check_some, PathBloomFilter.checkExist_iff]
  refine and_congr_right fun _ => forall_congr' fun k => ?_
  rw [PathBloomFilter.bitmap_foldl, PathBloomFilter.bitmap_new, BloomBitmap.has_foldl_mark, hzero,
    or_iff_right Bool.false_ne_true]
  simp only [List.mem_map, exists_exists_and_eq_and]

/--
**見つかる経路のどの hash にも、それと等しい hash の加わった経路があるのは、次でないとき、そのときに限る。経路を受け、
どの hash も、加わった経路のどれかと下から三つ目の bit の他は等しいが、等しいものの無い hash がある。**
-/
theorem pathBloom_precise_iff (adds : List BloomPath) (x : BloomPath) :
    (x.check (bloomRun adds) = true →
        ∀ k, ∃ q ∈ bloomAdded adds, pathBloomHash k q = pathBloomHash k x.path) ↔
      ¬ (x.Accepted ∧
        (∀ k, ∃ q ∈ bloomAdded adds, SameBit (pathBloomHash k q) (pathBloomHash k x.path)) ∧
        ∃ k, ∀ q ∈ bloomAdded adds, pathBloomHash k q ≠ pathBloomHash k x.path) := by
  rw [check_bloomRun, ← and_assoc, not_and]
  refine imp_congr_right fun _ => ?_
  simp only [not_exists, not_forall, not_not, exists_prop]

/-- `a` を加えると、`e` が見つかる。 -/
theorem pathBloom_bit_shared : (BloomPath.bytes [101]).check (bloomRun [.bytes [97]]) = true ∧
    ¬ ∀ (adds : List BloomPath) (x : BloomPath), x.check (bloomRun adds) = true →
      ∀ k, ∃ q ∈ bloomAdded adds, pathBloomHash k q = pathBloomHash k x.path := by
  have hfound : (BloomPath.bytes [101]).check (bloomRun [.bytes [97]]) = true := by decide
  refine ⟨hfound, fun h => ?_⟩
  obtain ⟨q, hq, he⟩ := h [.bytes [97]] (.bytes [101]) hfound 1
  obtain rfl : q = [97] := List.mem_singleton.mp hq
  exact absurd he (by decide)

/-! ## 加えた経路は必ず見つかる -/

def bloomRunFrom (ptr : Option PathBloomFilter) (adds : List BloomPath) : Option PathBloomFilter :=
  adds.foldl (fun ptr x => (x.add ptr).2) ptr

theorem BloomPath.add_eq_zero {x : BloomPath} {p : PathBloomFilter} (h : (x.add (some p)).1 = 0) :
    x.Accepted := by
  by_contra hx
  cases x with
  | str buf =>
    have hbad := not_not.mp (mt (accepted_str buf).mpr hx)
    have herr : ((BloomPath.str buf).add (some p)).1 = esqErrorParam :=
      congrArg Prod.fst (if_pos hbad)
    rw [herr] at h
    exact absurd h (by decide)
  | bytes path =>
    have herr : ((BloomPath.bytes path).add (some p)).1 = esqErrorParam :=
      congrArg Prod.fst (if_neg hx)
    rw [herr] at h
    exact absurd h (by decide)

theorem BloomPath.Accepted.path_ne_nil {x : BloomPath} (hx : x.Accepted) : 0 < x.path.length := by
  cases x with
  | str buf => exact hx.1
  | bytes path => exact hx

theorem bloomRunFrom_some : ∀ (adds : List BloomPath) (p : PathBloomFilter),
    ∃ p', bloomRunFrom (some p) adds = some p'
  | [], p => ⟨p, rfl⟩
  | x :: adds, p => by
    obtain ⟨p₁, hp₁⟩ : ∃ p₁, (x.add (some p)).2 = some p₁ := by
      by_cases hx : x.Accepted
      · exact ⟨_, BloomPath.add_accepted hx p⟩
      · exact ⟨_, BloomPath.add_refused hx p⟩
    obtain ⟨p', hp'⟩ := bloomRunFrom_some adds p₁
    refine ⟨p', ?_⟩
    unfold bloomRunFrom at hp' ⊢
    rw [List.foldl_cons, hp₁, hp']

/-- **見つかる経路は、何を加えても見つかる。** -/
theorem bloomRunFrom_keeps : ∀ (adds : List BloomPath) {p p' : PathBloomFilter},
    p.checkExist path = true → bloomRunFrom (some p) adds = some p' → p'.checkExist path = true
  | [], p, p', h, hrun => by
    cases hrun
    exact h
  | x :: adds, p, p', h, hrun => by
    unfold bloomRunFrom at hrun
    rw [List.foldl_cons] at hrun
    by_cases hx : x.Accepted
    · rw [BloomPath.add_accepted hx] at hrun
      exact bloomRunFrom_keeps adds (PathBloomFilter.checkExist_addPath h) hrun
    · rw [BloomPath.add_refused hx] at hrun
      exact bloomRunFrom_keeps adds h hrun

/--
**加えて 0 が返った経路は、その前と後に何を加えても、どちらの渡し方でも見つかる。**

`path_bloom_filter_check_exist` に渡すのは、1024 byte に達しない、NUL で終わる文字列である。
-/
theorem pathBloom_no_false_negative (p : PathBloomFilter) (before after : List BloomPath)
    (x : BloomPath) (h : (x.add (bloomRunFrom (some p) before)).1 = 0) :
    pathBloomFilterCheckExist2 (bloomRunFrom (some p) (before ++ x :: after)) x.path = true ∧
      ∀ rest : List UInt8, 0 ∉ x.path → x.path.length < esqPathBloomMax →
        pathBloomFilterCheckExist (bloomRunFrom (some p) (before ++ x :: after))
          (x.path ++ 0 :: rest) = true := by
  obtain ⟨p₁, hp₁⟩ := bloomRunFrom_some before p
  rw [hp₁] at h
  have hx := BloomPath.add_eq_zero h
  obtain ⟨p₂, hp₂⟩ := bloomRunFrom_some after (p₁.addPath x.path)
  have hrun : bloomRunFrom (some p) (before ++ x :: after) = some p₂ := by
    unfold bloomRunFrom at hp₁ hp₂ ⊢
    rw [List.foldl_append, hp₁, List.foldl_cons, BloomPath.add_accepted hx, hp₂]
  have hfound : p₂.checkExist x.path = true :=
    bloomRunFrom_keeps after PathBloomFilter.checkExist_addPath_self hp₂
  have hpos := hx.path_ne_nil
  rw [hrun]
  refine ⟨?_, fun rest hzero hlen => ?_⟩
  · exact ((BloomPath.bytes x.path).check_some p₂).mpr ⟨hpos, hfound⟩
  · have hstr := strn_append_zero hzero hlen rest
    refine ((BloomPath.str (x.path ++ 0 :: rest)).check_some p₂).mpr ⟨?_, ?_⟩
    · show 0 < (strn _ _).length ∧ (strn _ _).length < _
      rw [hstr]
      exact ⟨hpos, hlen⟩
    · show p₂.checkExist (strn _ _) = true
      rw [hstr]
      exact hfound

/-- `b` と `c` の間に加えた `a` が、どちらの渡し方でも見つかる。 -/
theorem pathBloom_no_false_negative_sample :
    pathBloomFilterCheckExist2
        (bloomRunFrom (some pathBloomFilterNew) ([.str [98, 0]] ++ .bytes [97] :: [.bytes [99]]))
        [97] = true ∧
      pathBloomFilterCheckExist
        (bloomRunFrom (some pathBloomFilterNew) ([.str [98, 0]] ++ .bytes [97] :: [.bytes [99]]))
        ([97] ++ 0 :: []) = true := by
  have h := pathBloom_no_false_negative pathBloomFilterNew [.str [98, 0]] [.bytes [99]]
    (.bytes [97]) (by decide)
  exact ⟨h.1, h.2 [] (by decide) (by decide)⟩

end

end Esq
