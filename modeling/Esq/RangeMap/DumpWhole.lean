import Esq.RangeMap.Dump
import Esq.RangeMap.Lookup

/-!
# 書き出した文字列が全体であること

`range_map_dump_node` と `range_map_dump_to_buffer` が成功を返したときに、buffer に全体が入っている条件。

`range_map_dump_node_to_buffer` は、番地か hash の途中で buffer が尽きると、`snprintf` の戻り値（正の値）を
そのまま返す。`range_map_dump_node` はそれを成功とみなす。list を書く側は残りの長さと比べるが、
hash の一桁分の戻り値 2 は残りより短いので、そこで切れた node は 2 byte の node として数えられる。
-/

namespace Esq

open Infra

/-! ## 全体の文字列 -/

def hashText (p : RangeNode) : List UInt8 := p.hash.flatMap hexByte

/-- `:B` や `:BP`。状態の分からない bucket では空とする。 -/
def bucketText (st : Bee) (p : RangeNode) : List UInt8 :=
  match p.bucket with
  | none => []
  | some b =>
    match beeBucketGetDbPtrState (st.bucket b) with
    | .ok s => 58 :: s
    | .error _ => []

def nodeText (st : Bee) (p : Nat) : List UInt8 :=
  addressText (st.maps.node p).ip (st.maps.node p).port ++ hashText (st.maps.node p) ++ [120]
    ++ bucketText st (st.maps.node p)

/-- 書き出す一つ分。`sep` を書くには、残りが `need` より長くなければならない。 -/
structure DumpItem where
  sep : List UInt8
  need : Nat
  node : Nat
deriving DecidableEq, Repr

def headText (first : Bool) (l : Nat) : List UInt8 :=
  (if first then [] else ascii ", ") ++ decimal l ++ ascii ": "

def mapItems (maps : RangeMaps) : Bool → List (Nat × Nat) → List DumpItem
  | _, [] => []
  | first, (l, p) :: rest =>
    ⟨headText first l, (headText first l).length, p⟩ ::
      (rangeNodes maps (maps.next p)).map (fun n => ⟨[32], 3, n⟩) ++ mapItems maps false rest

def DumpItem.text (st : Bee) (item : DumpItem) : List UInt8 := item.sep ++ nodeText st item.node

def itemsText (st : Bee) (items : List DumpItem) : List UInt8 := items.flatMap (DumpItem.text st)

/-! ## buffer が尽きる所 -/

/-- 残り `R` byte の buffer に node を書くと起こること。 -/
inductive NodeFate where
  /-- 番地の途中で尽きる -/
  | long
  /-- hash の途中で尽きる -/
  | cut
  /-- その後で尽きる -/
  | refused
  | full
  /-- bucket の状態が分からない -/
  | unknown
deriving DecidableEq, Repr

def nodeFate (st : Bee) (p R : Nat) : NodeFate :=
  let n := st.maps.node p
  let addr := (addressText n.ip n.port).length
  if R ≤ addr then .long
  else if R ≤ addr + (hashText n).length then .cut
  else if R ≤ addr + (hashText n).length + 3 then .refused
  else
    match n.bucket with
    | none => .full
    | some b =>
      match beeBucketGetDbPtrState (st.bucket b) with
      | .error _ => .unknown
      | .ok _ => if R ≤ (nodeText st p).length then .refused else .full

/--
残り `R` byte の buffer に順に書くと、hash の途中で切れた node を 2 byte と数えたまま終わりまで進むか、
状態の分からない bucket に着く。`cut` は、それまでに切れた node があることである。
-/
def Slips (st : Bee) : Bool → Nat → List DumpItem → Prop
  | cut, _, [] => cut = true
  | cut, R, item :: rest =>
    item.need < R ∧
      match nodeFate st item.node (R - item.sep.length) with
      | .full => Slips st cut (R - (item.text st).length) rest
      | .cut => Slips st true (R - (item.sep.length + 2)) rest
      | .unknown => True
      | .long => False
      | .refused => False

/-! ## 成功の意味 -/

/-- 成功なら、長さは `text` の長さで、buffer の先頭には `text` と NUL が入っている。 -/
def DumpedWhole (text : List UInt8) (r : Int) (buf : List UInt8) : Prop :=
  r = text.length ∧ text ++ [0] <+: buf

def dumpedNode (st : Bee) (mapName ipStr : CStr) (port : Int) (hashString : CStr) : Option Nat :=
  match translateMkcParams ipStr hashString with
  | .error _ => none
  | .ok params =>
    (rangeMapFindByName st.maps mapName).bind fun i =>
      rangeMapFindNode st.maps i params.ip port params.hash

/-- `range_map_dump_node` は、全体を書くか、誤りを返す。 -/
def NodeDumpRight (st : Bee) (mapName ipStr : CStr) (port : Int) (hashString : CStr)
    (buf : List UInt8) : Prop :=
  ∃ errs r buf', rangeMapDumpNode st mapName ipStr port hashString buf buf.length
      = .ok (errs, r, buf') ∧
    (errs = none → ∃ p, dumpedNode st mapName ipStr port hashString = some p ∧
      DumpedWhole (nodeText st p) r buf')

def mapText (st : Bee) (name : CStr) : List UInt8 :=
  match rangeMapFindByName st.maps name with
  | none => ascii "range not found\n"
  | some i => itemsText st (mapItems st.maps true (rangeMapForeach (st.maps.slot i)))

/-- `range_map_dump_to_buffer` は、全体を書くか、0 以下の値を返す。 -/
def MapDumpRight (st : Bee) (name : CStr) (buf : List UInt8) : Prop :=
  ∃ r buf', rangeMapDumpToBuffer st name buf buf.length = .ok (r, buf') ∧
    (0 < r → DumpedWhole (mapText st name) r buf')

/-! ## 一つ書く -/

section

variable {done rest text buf : List UInt8} {start buflen off : Nat}

structure Cursor (start buflen off : Nat) (done rest : List UInt8) : Prop where
  pos : start + off = done.length
  left : buflen - off = rest.length

theorem snprintf_fits (h : text.length < rest.length) :
    snprintf (done ++ rest) done.length rest.length text
      = ((text.length : Int), done ++ text ++ 0 :: rest.drop (text.length + 1)) := by
  have htake : text.take (rest.length - 1) = text := List.take_of_length_le (by omega)
  unfold snprintf
  rw [if_neg (by omega), htake, splice_append, List.length_append, List.length_singleton,
    List.append_assoc, List.append_assoc]
  rfl

theorem snprintf_length (done rest text : List UInt8) :
    ∃ buf, snprintf (done ++ rest) done.length rest.length text = ((text.length : Int), buf) ∧
      buf.length = done.length + rest.length := by
  unfold snprintf
  by_cases h0 : rest.length = 0
  · exact ⟨done ++ rest, by rw [if_pos h0], List.length_append⟩
  · refine ⟨_, by rw [if_neg h0], ?_⟩
    rw [splice_append]
    simp only [List.length_append, List.length_take, List.length_singleton, List.length_drop]
    omega

theorem dumpText_fits (hc : Cursor start buflen off done rest) (hne : text ≠ [])
    (h : text.length < rest.length) :
    dumpText start buflen (off, done ++ rest) text
      = .ok (off + text.length, done ++ text ++ 0 :: rest.drop (text.length + 1)) := by
  have hpos : 0 < text.length := List.length_pos_iff.mpr hne
  have htr : truncated text.length rest.length = false := by
    simp only [truncated, Bool.or_eq_false_iff, decide_eq_false_iff_not]
    omega
  unfold dumpText
  rw [hc.pos, hc.left, snprintf_fits h]
  simp only [htr, Bool.false_eq_true, if_false, Int.toNat_natCast]

theorem dumpText_cut (hc : Cursor start buflen off done rest) (h : rest.length ≤ text.length) :
    ∃ buf, dumpText start buflen (off, done ++ rest) text = .error (text.length, buf) ∧
      buf.length = done.length + rest.length := by
  obtain ⟨buf, hs, hl⟩ := snprintf_length done rest text
  have htr : truncated text.length rest.length = true := by
    simp only [truncated, Bool.or_eq_true, decide_eq_true_eq]
    omega
  refine ⟨buf, ?_, hl⟩
  unfold dumpText
  rw [hc.pos, hc.left, hs]
  simp only [htr, if_true]

theorem Cursor.advance (hc : Cursor start buflen off done rest) (h : text.length < rest.length) :
    Cursor start buflen (off + text.length) (done ++ text) (0 :: rest.drop (text.length + 1)) where
  pos := by rw [List.length_append, ← hc.pos, Nat.add_assoc]
  left := by
    have := hc.left
    rw [List.length_cons, List.length_drop]
    omega

/-! ## hash -/

theorem length_hexByte (b : UInt8) : (hexByte b).length = 2 := rfl

theorem dumpHash : ∀ (bs : List UInt8) {off : Nat} {done rest : List UInt8},
    Cursor start buflen off done rest → 0 < rest.length →
    (rest.length ≤ (bs.flatMap hexByte).length →
      ∃ buf, bs.foldlM (fun w b => dumpText start buflen w (hexByte b)) (off, done ++ rest)
        = .error (2, buf) ∧ buf.length = done.length + rest.length) ∧
    ((bs.flatMap hexByte).length < rest.length →
      ∃ rest', bs.foldlM (fun w b => dumpText start buflen w (hexByte b)) (off, done ++ rest)
          = .ok (off + (bs.flatMap hexByte).length, done ++ bs.flatMap hexByte ++ rest') ∧
        rest'.length + (bs.flatMap hexByte).length = rest.length)
  | [], off, done, rest, hc, hpos => by
    refine ⟨fun h => ?_, fun _ => ⟨rest, ?_, rfl⟩⟩
    · have : (List.flatMap hexByte []).length = 0 := rfl
      omega
    · rw [List.flatMap_nil, List.append_nil]
      rfl
  | b :: bs, off, done, rest, hc, hpos => by
    rw [List.flatMap_cons, List.length_append, length_hexByte, List.foldlM_cons]
    by_cases h2 : rest.length ≤ (hexByte b).length
    · have hle : rest.length ≤ 2 := h2
      obtain ⟨buf, hd, hl⟩ := dumpText_cut hc h2
      refine ⟨fun _ => ⟨buf, ?_, hl⟩, fun h => by omega⟩
      rw [hd]
      rfl
    · have h2 := not_le.mp h2
      have hlt : 2 < rest.length := h2
      have hne : hexByte b ≠ [] := List.ne_nil_of_length_pos (by decide : 0 < 2)
      have hc' := hc.advance h2
      have hlen : (0 :: rest.drop ((hexByte b).length + 1)).length + 2 = rest.length := by
        rw [List.length_cons, List.length_drop, length_hexByte]
        omega
      obtain ⟨hcut, hfit⟩ := dumpHash bs hc' (Nat.succ_pos _)
      rw [dumpText_fits hc hne h2]
      refine ⟨fun h => ?_, fun h => ?_⟩
      · obtain ⟨buf, hd, hl⟩ := hcut (by omega)
        refine ⟨buf, hd, ?_⟩
        rw [length_hexByte] at hl hlen
        rw [hl, List.length_append, length_hexByte]
        omega
      · obtain ⟨rest', hd, hl⟩ := hfit (by omega)
        refine ⟨rest', ?_, by omega⟩
        rw [← List.append_assoc]
        refine hd.trans ?_
        rw [length_hexByte, Nat.add_assoc]

/-! ## 一つの node -/

theorem five_le_addressText (ip : Nat) (port : Int) : 5 ≤ (addressText ip port).length := by
  unfold addressText
  simp only [List.length_append, List.length_singleton]
  omega

inductive AddressHashDumped (done rest : List UInt8) (p : RangeNode) : Dumping → Prop where
  | long (buf : List UInt8) (h : rest.length ≤ (addressText p.ip p.port).length) :
    AddressHashDumped done rest p (.error ((addressText p.ip p.port).length, buf))
  | cut (buf : List UInt8) (hlen : buf.length = done.length + rest.length)
    (ha : (addressText p.ip p.port).length < rest.length)
    (h : rest.length ≤ (addressText p.ip p.port).length + (hashText p).length) :
    AddressHashDumped done rest p (.error (2, buf))
  | refused (buf : List UInt8)
    (ha : (addressText p.ip p.port).length + (hashText p).length < rest.length)
    (h : rest.length ≤ (addressText p.ip p.port).length + (hashText p).length + 3) :
    AddressHashDumped done rest p (.error (-1, buf))
  | full (rest' : List UInt8)
    (h : (addressText p.ip p.port).length + (hashText p).length + 3 < rest.length)
    (hlen : rest'.length + 1
      + ((addressText p.ip p.port).length + (hashText p).length + 1) = rest.length) :
    AddressHashDumped done rest p (.ok
      ((addressText p.ip p.port).length + (hashText p).length + 1,
        done ++ (addressText p.ip p.port ++ hashText p ++ [120]) ++ 0 :: rest'))

theorem addressHashDumped (done rest : List UInt8) (p : RangeNode) :
    AddressHashDumped done rest p (dumpAddressHash done.length rest.length (done ++ rest) p) := by
  have h5 := five_le_addressText p.ip p.port
  have hc : Cursor done.length rest.length 0 done rest := ⟨Nat.add_zero _, Nat.sub_zero _⟩
  unfold dumpAddressHash
  by_cases ha : rest.length ≤ (addressText p.ip p.port).length
  · obtain ⟨buf, hd, -⟩ := dumpText_cut hc ha
    rw [hd]
    exact .long buf ha
  have ha := not_le.mp ha
  have hc' := hc.advance ha
  obtain ⟨hcut, hfit⟩ := dumpHash p.hash hc' (Nat.succ_pos _)
  have hlen : (0 :: rest.drop ((addressText p.ip p.port).length + 1)).length
      + (addressText p.ip p.port).length = rest.length := by
    rw [List.length_cons, List.length_drop]
    omega
  rw [dumpText_fits hc (List.ne_nil_of_length_pos (by omega)) ha]
  by_cases hh : rest.length ≤ (addressText p.ip p.port).length + (hashText p).length
  · obtain ⟨buf, hd, hl⟩ := hcut (by show _ ≤ (hashText p).length; omega)
    rw [ok_bind, hd]
    refine .cut buf ?_ ha hh
    rw [hl, List.length_append]
    omega
  have hh := not_le.mp hh
  obtain ⟨rest', hd, hl⟩ := hfit (by show (hashText p).length < _; omega)
  have hl : rest'.length + (hashText p).length + (addressText p.ip p.port).length
      = rest.length := by
    rw [← hlen, ← hl]
    rfl
  have hoff : 0 + (addressText p.ip p.port).length + (p.hash.flatMap hexByte).length
      = (addressText p.ip p.port).length + (hashText p).length := by
    rw [Nat.zero_add]
    rfl
  rw [ok_bind, hd, hoff]
  show AddressHashDumped done rest p (if rest.length - _ > 3 then _ else _)
  by_cases hx : rest.length ≤ (addressText p.ip p.port).length + (hashText p).length + 3
  · rw [if_neg (by omega)]
    exact .refused _ hh hx
  · have hx := not_le.mp hx
    have hpos : done.length + ((addressText p.ip p.port).length + (hashText p).length)
        = (done ++ addressText p.ip p.port ++ p.hash.flatMap hexByte).length := by
      rw [List.length_append, List.length_append, Nat.add_assoc]
      rfl
    rw [if_pos (by omega), hpos, splice_append]
    have hfull := @AddressHashDumped.full done rest p (rest'.drop 2) hx
      (by rw [List.length_drop]; omega)
    simp only [List.append_assoc, List.cons_append, List.nil_append] at hfull ⊢
    exact hfull

inductive NodeDumped (st : Bee) (p : Nat) (done rest : List UInt8) :
    NodeFate → Except Fault (Int × List UInt8) → Prop where
  | long (buf : List UInt8) : NodeDumped st p done rest .long
      (.ok ((addressText (st.maps.node p).ip (st.maps.node p).port).length, buf))
  | cut (buf : List UInt8) (hlen : buf.length = done.length + rest.length) :
    NodeDumped st p done rest .cut (.ok (2, buf))
  | refused (buf : List UInt8) : NodeDumped st p done rest .refused (.ok (-1, buf))
  | full (rest' : List UInt8) (hlen : rest'.length + 1 + (nodeText st p).length = rest.length) :
    NodeDumped st p done rest .full
      (.ok ((nodeText st p).length, done ++ nodeText st p ++ 0 :: rest'))
  | unknown : NodeDumped st p done rest .unknown (.error .designError)

theorem nodeDumped (st : Bee) (p : Nat) (done rest : List UInt8) :
    NodeDumped st p done rest (nodeFate st p rest.length)
      (rangeMapDumpNodeToBuffer st done.length rest.length (done ++ rest) p) := by
  have hah := addressHashDumped done rest (st.maps.node p)
  unfold rangeMapDumpNodeToBuffer nodeFate
  generalize hres : dumpAddressHash done.length rest.length (done ++ rest) (st.maps.node p) = res
    at hah
  cases hah with
  | long buf h =>
    simp only [h, if_true]
    exact .long buf
  | cut buf hlen ha h =>
    simp only [not_le.mpr ha, h, if_true, if_false]
    exact .cut buf hlen
  | refused buf ha h =>
    have ha' : ¬ rest.length ≤ (addressText (st.maps.node p).ip (st.maps.node p).port).length := by
      omega
    simp only [not_le.mpr ha, ha', h, if_true, if_false]
    exact .refused buf
  | full rest' h hlen =>
    have h1 : ¬ rest.length ≤ (addressText (st.maps.node p).ip (st.maps.node p).port).length := by
      omega
    have h2 : ¬ rest.length ≤ (addressText (st.maps.node p).ip (st.maps.node p).port).length
        + (hashText (st.maps.node p)).length := by omega
    simp only [h1, h2, not_le.mpr h, if_false]
    have htext : (addressText (st.maps.node p).ip (st.maps.node p).port
        ++ hashText (st.maps.node p) ++ [120]).length
        = (addressText (st.maps.node p).ip (st.maps.node p).port).length
          + (hashText (st.maps.node p)).length + 1 := by
      rw [List.length_append, List.length_append, List.length_singleton]
    cases hb : (st.maps.node p).bucket with
    | none =>
      have hnode : nodeText st p = addressText (st.maps.node p).ip (st.maps.node p).port
          ++ hashText (st.maps.node p) ++ [120] := by
        unfold nodeText bucketText
        rw [hb, List.append_nil]
      simp only
      rw [← htext, ← hnode]
      refine .full rest' ?_
      rw [hnode, htext]
      exact hlen
    | some b =>
      cases hs : beeBucketGetDbPtrState (st.bucket b) with
      | error e =>
        have he : e = .designError := by
          unfold beeBucketGetDbPtrState at hs
          split at hs <;> cases hs
          rfl
        subst he
        simp only [hs]
        exact .unknown
      | ok s =>
        have hnode : nodeText st p = addressText (st.maps.node p).ip (st.maps.node p).port
            ++ hashText (st.maps.node p) ++ [120] ++ (58 :: s) := by
          unfold nodeText bucketText
          simp only [hb, hs]
        have hnlen : (nodeText st p).length = (addressText (st.maps.node p).ip
            (st.maps.node p).port).length + (hashText (st.maps.node p)).length + 1
            + (58 :: s).length := by
          rw [hnode, List.length_append, htext]
        have hpos : done.length + ((addressText (st.maps.node p).ip (st.maps.node p).port).length
            + (hashText (st.maps.node p)).length + 1)
            = (done ++ (addressText (st.maps.node p).ip (st.maps.node p).port
              ++ hashText (st.maps.node p) ++ [120])).length := by
          rw [List.length_append, htext]
        have hleft : rest.length - ((addressText (st.maps.node p).ip (st.maps.node p).port).length
            + (hashText (st.maps.node p)).length + 1) = (0 :: rest').length := by
          rw [List.length_cons]
          omega
        simp only [hs, ok_bind]
        rw [hpos, hleft]
        by_cases hle : rest.length ≤ (nodeText st p).length
        · obtain ⟨buf, hd, -⟩ := snprintf_length (done ++ (addressText (st.maps.node p).ip
            (st.maps.node p).port ++ hashText (st.maps.node p) ++ [120])) (0 :: rest') (58 :: s)
          have htr : truncated ((58 :: s).length : Int) (0 :: rest').length = true := by
            simp only [truncated, Bool.or_eq_true, decide_eq_true_eq]
            omega
          rw [hd]
          simp only [htr, if_true, hle]
          exact .refused buf
        · have hlt := not_le.mp hle
          have hfits : (58 :: s).length < (0 :: rest').length := by omega
          have htr : truncated ((58 :: s).length : Int) (0 :: rest').length = false := by
            simp only [truncated, Bool.or_eq_false_iff, decide_eq_false_iff_not]
            have : (58 :: s).length = s.length + 1 := rfl
            omega
          rw [snprintf_fits hfits]
          simp only [htr, Bool.false_eq_true, if_false, hle]
          have hfull := @NodeDumped.full st p done rest
            ((0 :: rest').drop ((58 :: s).length + 1))
            (by rw [List.length_drop]; omega)
          rw [hnlen, hnode, Int.natCast_add, ← List.append_assoc] at hfull
          exact hfull

/-! ## 並べて書く -/

/-- 途中で切れた node を残したまま進んだか、止まった。 -/
def Botched (st : Bee) (cut : Bool) (done : List UInt8) (items : List DumpItem)
    (res : Except Fault (Int × List UInt8)) : Prop :=
  res = .error .designError ∨
    ∃ (n : Nat) (buf : List UInt8), res = .ok ((done.length + n : Nat), buf) ∧
      n ≤ (itemsText st items).length ∧
      (cut = false → 0 < n ∧ n < (itemsText st items).length)

def Laid (st : Bee) (done : List UInt8) (items : List DumpItem)
    (res : Except Fault (Int × List UInt8)) : Prop :=
  ∃ rest', res = .ok ((done.length + (itemsText st items).length : Nat),
    done ++ itemsText st items ++ 0 :: rest')

structure Dumped (st : Bee) (cut : Bool) (done rest : List UInt8) (items : List DumpItem)
    (res : Except Fault (Int × List UInt8)) : Prop where
  slips : Slips st cut rest.length items → Botched st cut done items res
  keeps : ¬ Slips st cut rest.length items →
    (∃ buf, res = .ok (-1, buf)) ∨ (cut = false ∧ Laid st done items res)

section

variable {st : Bee} {cut : Bool} {item : DumpItem} {items : List DumpItem}
  {res : Except Fault (Int × List UInt8)} {rest1 done' rest' : List UInt8}

theorem itemsText_cons (st : Bee) (item : DumpItem) (items : List DumpItem) :
    itemsText st (item :: items) = item.sep ++ nodeText st item.node ++ itemsText st items := rfl

theorem five_lt_nodeText (st : Bee) (p : Nat) : 5 < (nodeText st p).length := by
  have h5 := five_le_addressText (st.maps.node p).ip (st.maps.node p).port
  unfold nodeText
  simp only [List.length_append, List.length_singleton]
  omega

theorem settled_nil (hhead : cut = false → rest.head? = some 0) :
    Dumped st cut done rest [] (.ok (done.length, done ++ rest)) := by
  refine ⟨fun hs => Or.inr ⟨0, done ++ rest, rfl, le_rfl, fun hc => ?_⟩, fun hs => Or.inr ?_⟩
  · exact absurd (hs : cut = true) (by rw [hc]; exact Bool.false_ne_true)
  · have hc : cut = false := Bool.eq_false_of_not_eq_true hs
    obtain ⟨rest', hr⟩ := List.head?_eq_some_iff.mp (hhead hc)
    exact ⟨hc, rest', by rw [hr]; simp [itemsText]⟩

theorem settled_refused (buf : List UInt8) (h : ¬ Slips st cut rest.length items) :
    Dumped st cut done rest items (.ok (-1, buf)) :=
  ⟨fun hs => absurd hs h, fun _ => Or.inl ⟨buf, rfl⟩⟩

def afterNode (R : Nat) (k : Nat → List UInt8 → Except Fault (Int × List UInt8))
    (x : Except Fault (Int × List UInt8)) : Except Fault (Int × List UInt8) := do
  let (r, buf) ← x
  if truncated r R then .ok (-1, buf) else k r.toNat buf

theorem afterNode_ok {R n : Nat} {k : Nat → List UInt8 → Except Fault (Int × List UInt8)}
    (buf : List UInt8) (hpos : 0 < n) (hlt : n < R) :
    afterNode R k (.ok ((n : Int), buf)) = k n buf := by
  have htr : truncated (n : Int) R = false := by
    simp only [truncated, Bool.or_eq_false_iff, decide_eq_false_iff_not]
    omega
  unfold afterNode
  rw [ok_bind]
  simp only [htr, Bool.false_eq_true, if_false, Int.toNat_natCast]

theorem Dumped.cons {k : Nat → List UInt8 → Except Fault (Int × List UInt8)}
    (hneed : item.need < rest.length) (hsep : rest1.length + item.sep.length = rest.length)
    (hk : ∀ (c : Bool) (n : Nat) (done' rest' : List UInt8),
      done'.length = done.length + item.sep.length + n → n + rest'.length = rest1.length →
      (c = false → rest'.head? = some 0) → Dumped st c done' rest' items (k n (done' ++ rest'))) :
    Dumped st cut done rest (item :: items) (afterNode rest1.length k
      (rangeMapDumpNodeToBuffer st (done ++ item.sep).length rest1.length
        (done ++ item.sep ++ rest1) item.node)) := by
  have hsub : rest.length - item.sep.length = rest1.length := by omega
  have h5 := five_lt_nodeText st item.node
  have hslips : Slips st cut rest.length (item :: items) ↔
      match nodeFate st item.node rest1.length with
      | .full => Slips st cut (rest.length - (item.text st).length) items
      | .cut => Slips st true (rest.length - (item.sep.length + 2)) items
      | .unknown => True
      | .long => False
      | .refused => False := by
    rw [Slips, hsub]
    exact and_iff_right hneed
  have hcutlt : nodeFate st item.node rest1.length = .cut → 2 < rest1.length := by
    intro hf
    have h5' := five_le_addressText (st.maps.node item.node).ip (st.maps.node item.node).port
    by_contra hle
    unfold nodeFate at hf
    rw [if_pos (by omega)] at hf
    cases hf
  have hlong : nodeFate st item.node rest1.length = .long → rest1.length
      ≤ (addressText (st.maps.node item.node).ip (st.maps.node item.node).port).length := by
    intro hf
    by_contra hlt
    unfold nodeFate at hf
    simp only [hlt, if_false] at hf
    repeat' split at hf
    all_goals cases hf
  have hd := nodeDumped st item.node (done ++ item.sep) rest1
  have hdl : (done ++ item.sep).length = done.length + item.sep.length := List.length_append
  generalize hfate : nodeFate st item.node rest1.length = fate at hd hslips hcutlt hlong
  generalize rangeMapDumpNodeToBuffer st (done ++ item.sep).length rest1.length
    (done ++ item.sep ++ rest1) item.node = x at hd
  cases hd with
  | long buf =>
    have htr : truncated ((addressText (st.maps.node item.node).ip
        (st.maps.node item.node).port).length : Int) rest1.length = true := by
      have := hlong rfl
      simp only [truncated, Bool.or_eq_true, decide_eq_true_eq]
      omega
    unfold afterNode
    rw [ok_bind]
    simp only [htr, if_true]
    exact settled_refused buf hslips.mp
  | refused buf => exact settled_refused buf hslips.mp
  | unknown => exact ⟨fun _ => Or.inl rfl, fun hs => absurd (hslips.mpr trivial) hs⟩
  | cut buf hlen =>
    have h2 := hcutlt rfl
    obtain ⟨done', rest', rfl, hdone⟩ : ∃ done' rest', buf = done' ++ rest' ∧
        done'.length = done.length + item.sep.length + 2 :=
      ⟨buf.take (done.length + item.sep.length + 2), buf.drop (done.length + item.sep.length + 2),
        (List.take_append_drop ..).symm, by rw [List.length_take]; omega⟩
    rw [List.length_append] at hlen
    have hset := hk true 2 done' rest' hdone (by omega) (fun h => by cases h)
    have hR : rest.length - (item.sep.length + 2) = rest'.length := by omega
    simp only [hR] at hslips
    rw [show (2 : Int) = ((2 : Nat) : Int) from rfl, afterNode_ok _ (by decide) h2]
    refine ⟨fun hs => ?_, fun hs => ?_⟩
    · rcases hset.slips (hslips.mp hs) with herr | ⟨n, buf, hn, hle, -⟩
      · exact Or.inl herr
      · refine Or.inr ⟨item.sep.length + 2 + n, buf, ?_, ?_, fun _ => ⟨by omega, ?_⟩⟩
        · rw [hn, hdone]
          simp only [Nat.add_assoc]
        · rw [itemsText_cons, List.length_append, List.length_append]
          omega
        · rw [itemsText_cons, List.length_append, List.length_append]
          omega
    · rcases hset.keeps fun h => hs (hslips.mpr h) with hfail | ⟨hc, -⟩
      · exact Or.inl hfail
      · cases hc
  | full rest' hlen =>
    have htext : (item.text st).length = item.sep.length + (nodeText st item.node).length :=
      List.length_append
    have hdone : (done ++ item.sep ++ nodeText st item.node).length
        = done.length + item.sep.length + (nodeText st item.node).length := by
      rw [List.length_append, hdl]
    have hR : rest.length - (item.text st).length = (0 :: rest').length := by
      rw [List.length_cons]
      omega
    have hset := hk cut (nodeText st item.node).length (done ++ item.sep ++ nodeText st item.node)
      (0 :: rest') hdone (by rw [List.length_cons]; omega) (fun _ => rfl)
    simp only [hR] at hslips
    rw [afterNode_ok _ (by omega) (by omega)]
    refine ⟨fun hs => ?_, fun hs => ?_⟩
    · rcases hset.slips (hslips.mp hs) with herr | ⟨n, buf, hn, hle, hlt⟩
      · exact Or.inl herr
      · refine Or.inr ⟨item.sep.length + (nodeText st item.node).length + n, buf, ?_, ?_,
          fun hc => ⟨by omega, ?_⟩⟩
        · rw [hn, hdone]
          simp only [Nat.add_assoc]
        · rw [itemsText_cons, List.length_append, List.length_append]
          omega
        · have := (hlt hc).2
          rw [itemsText_cons, List.length_append, List.length_append]
          omega
    · rcases hset.keeps fun h => hs (hslips.mpr h) with hfail | ⟨hc, rest'', hlaid⟩
      · exact Or.inl hfail
      · refine Or.inr ⟨hc, rest'', ?_⟩
        rw [hlaid, hdone, itemsText_cons]
        simp only [List.length_append, List.append_assoc, Nat.add_assoc]

structure Continues (st : Bee) (start buflen : Nat) (items : List DumpItem)
    (k : Int × List UInt8 → Except Fault (Int × List UInt8)) : Prop where
  refused : ∀ buf, k (-1, buf) = .ok (-1, buf)
  settled : ∀ (c : Bool) (off : Nat) (done rest : List UInt8), start + off = done.length →
    off + rest.length = buflen → (c = false → rest.head? = some 0) →
    Dumped st c done rest items (k (off, done ++ rest))

theorem bind_afterNode {R : Nat} {k : Int × List UInt8 → Except Fault (Int × List UInt8)}
    (hk : ∀ buf, k (-1, buf) = .ok (-1, buf))
    (f : Nat → List UInt8 → Except Fault (Int × List UInt8))
    (x : Except Fault (Int × List UInt8)) :
    (x >>= fun w => if truncated w.1 R then .ok (-1, w.2) else f w.1.toNat w.2) >>= k
      = afterNode R (fun n buf => f n buf >>= k) x := by
  unfold afterNode
  cases x with
  | error e => rfl
  | ok w =>
    simp only [ok_bind]
    split
    · exact hk w.2
    · rfl

theorem settled_list {k : Int × List UInt8 → Except Fault (Int × List UInt8)}
    (hk : Continues st start buflen items k) : ∀ (ps : List Nat) (cut : Bool) (off : Nat)
    (done rest : List UInt8), start + off = done.length → off + rest.length = buflen →
    (cut = false → rest.head? = some 0) →
    Dumped st cut done rest (ps.map (fun p => ⟨[32], 3, p⟩) ++ items)
      (dumpListLoop st start buflen off (done ++ rest) ps >>= k)
  | [], cut, off, done, rest, hpos, htot, hhead => hk.settled cut off done rest hpos htot hhead
  | p :: ps, cut, off, done, rest, hpos, htot, hhead => by
    unfold dumpListLoop
    by_cases h3 : buflen - off > 3
    · have hlen : (rest.drop 1).length + 1 = rest.length := by
        rw [List.length_drop]
        omega
      have hdone : (done ++ [32]).length = done.length + 1 := List.length_append
      have hs : start + (off + 1) = (done ++ [32]).length := by omega
      have hR : buflen - (off + 1) = (rest.drop 1).length := by omega
      have hbuf : splice (done ++ rest) done.length [32] = done ++ [32] ++ rest.drop 1 := by
        rw [splice_append, List.append_assoc]
        rfl
      rw [if_pos h3, hpos]
      simp only [hbuf, hs, hR]
      rw [bind_afterNode hk.refused (fun n buf => dumpListLoop st start buflen (off + 1 + n) buf ps)]
      refine Dumped.cons
        (show (⟨[32], 3, p⟩ : DumpItem).need < rest.length from (by omega : 3 < rest.length)) hlen ?_
      intro c n done' rest' hd hr hh
      have hd : done'.length = done.length + 1 + n := hd
      exact settled_list hk ps c (off + 1 + n) done' rest' (by omega) (by omega) hh
    · rw [if_neg h3, ok_bind, hk.refused]
      refine settled_refused _ ?_
      rintro ⟨hneed, -⟩
      have hneed : 3 < rest.length := hneed
      omega

theorem headText_ne_nil (first : Bool) (l : Nat) : headText first l ≠ [] := by
  unfold headText
  simp [ascii]

theorem settled_map (T : Nat) : ∀ (heads : List (Nat × Nat)) (first cut : Bool)
    (done rest : List UInt8), done.length + rest.length = T →
    (cut = false → rest.head? = some 0) →
    Dumped st cut done rest (mapItems st.maps first heads)
      (dumpMapLoop st T first done.length (done ++ rest) heads)
  | [], first, cut, done, rest, htot, hhead => settled_nil hhead
  | (l, p) :: heads, first, cut, done, rest, htot, hhead => by
    have hR : T - done.length = rest.length := by omega
    have hne := List.length_pos_iff.mpr (headText_ne_nil first l)
    show Dumped st cut done rest (⟨headText first l, (headText first l).length, p⟩ ::
      ((rangeNodes st.maps (st.maps.next p)).map (fun n => ⟨[32], 3, n⟩)
        ++ mapItems st.maps false heads)) _
    unfold dumpMapLoop
    have htext : (if first = true then [] else ascii ", ") ++ decimal l ++ ascii ": "
        = headText first l := rfl
    rw [hR, htext]
    dsimp only
    by_cases hlt : (headText first l).length < rest.length
    · have htr : truncated ((headText first l).length : Int) rest.length = false := by
        simp only [truncated, Bool.or_eq_false_iff, decide_eq_false_iff_not]
        omega
      have hlen : (0 :: rest.drop ((headText first l).length + 1)).length
          + (headText first l).length = rest.length := by
        rw [List.length_cons, List.length_drop]
        omega
      have hdone : (done ++ headText first l).length
          = done.length + (headText first l).length := List.length_append
      have hleft : T - (done.length + (headText first l).length)
          = (0 :: rest.drop ((headText first l).length + 1)).length := by omega
      rw [snprintf_fits hlt]
      simp only [htr, Bool.false_eq_true, if_false, Int.toNat_natCast, hleft]
      rw [← hdone]
      unfold rangeMapDumpListToBuffer
      dsimp only
      rw [bind_afterNode (k := fun w => if w.1 ≥ 0 then dumpMapLoop st T false
          ((done ++ headText first l).length + w.1.toNat) w.2 heads else .ok (-1, w.2))
        (fun buf => rfl) (fun n buf => dumpListLoop st (done ++ headText first l).length
          (0 :: rest.drop ((headText first l).length + 1)).length n buf
          (rangeNodes st.maps (st.maps.next p)))]
      refine Dumped.cons
        (show (⟨headText first l, (headText first l).length, p⟩ : DumpItem).need < rest.length
          from hlt) hlen ?_
      intro c n done' rest' hd hr hh
      have hcont : Continues st (done ++ headText first l).length
          (0 :: rest.drop ((headText first l).length + 1)).length (mapItems st.maps false heads)
          fun w => if w.1 ≥ 0 then dumpMapLoop st T false
            ((done ++ headText first l).length + w.1.toNat) w.2 heads else .ok (-1, w.2) := by
        refine ⟨fun buf => rfl, fun c off done2 rest2 hpos htot2 hh2 => ?_⟩
        have hnn : ((off : Nat) : Int) ≥ 0 := Int.natCast_nonneg off
        simp only [hnn, if_true, Int.toNat_natCast]
        rw [hpos]
        exact settled_map T heads false c done2 rest2 (by omega) hh2
      exact settled_list hcont _ c n done' rest' (by rw [hd, hdone]) (by omega) hh
    · obtain ⟨buf, hs, -⟩ := snprintf_length done rest (headText first l)
      have htr : truncated ((headText first l).length : Int) rest.length = true := by
        simp only [truncated, Bool.or_eq_true, decide_eq_true_eq]
        omega
      rw [hs]
      simp only [htr, if_true]
      exact settled_refused buf fun h => hlt h.1

end

end

/-! ## 全体を書く条件 -/

def NodeDumpCond (st : Bee) (mapName ipStr : CStr) (port : Int) (hashString : CStr)
    (buflen : Nat) : Prop :=
  ∀ p, dumpedNode st mapName ipStr port hashString = some p →
    nodeFate st p buflen = .full ∨ nodeFate st p buflen = .refused

def MapDumpCond (st : Bee) (name : CStr) (buflen : Nat) : Prop :=
  match rangeMapFindByName st.maps name with
  | none => (mapText st name).length < buflen
  | some i => ¬ Slips st false buflen (mapItems st.maps true (rangeMapForeach (st.maps.slot i)))

section

variable {st : Bee} {mapName ipStr hashString : CStr} {port : Int} {buf : List UInt8} {p : Nat}

theorem dumpedWhole_append (text rest : List UInt8) :
    DumpedWhole text text.length (text ++ 0 :: rest) :=
  ⟨rfl, rest, by rw [List.append_assoc]; rfl⟩

theorem rangeMapDumpNode_of_found (h : dumpedNode st mapName ipStr port hashString = some p)
    (buf : List UInt8) : rangeMapDumpNode st mapName ipStr port hashString buf buf.length
      = (do
        let (r, buf') ← rangeMapDumpNodeToBuffer st 0 buf.length buf p
        if r ≤ 0 then .ok (some "node info buffer too small", (buf.length : Int), buf')
        else .ok (none, r, buf')) := by
  unfold dumpedNode at h
  unfold rangeMapDumpNode
  cases ht : translateMkcParams ipStr hashString with
  | error errs =>
    rw [ht] at h
    cases h
  | ok params =>
    rw [ht] at h
    obtain ⟨i, hi, hp⟩ := Option.bind_eq_some_iff.mp h
    simp only [hi, hp]

theorem rangeMapDumpNode_of_not_found (h : dumpedNode st mapName ipStr port hashString = none)
    (buf : List UInt8) : ∃ errs, rangeMapDumpNode st mapName ipStr port hashString buf buf.length
      = .ok (some errs, (buf.length : Int), buf) := by
  unfold dumpedNode at h
  unfold rangeMapDumpNode
  cases ht : translateMkcParams ipStr hashString with
  | error errs => exact ⟨errs, rfl⟩
  | ok params =>
    rw [ht] at h
    cases hi : rangeMapFindByName st.maps mapName with
    | none => exact ⟨_, rfl⟩
    | some i =>
      rw [hi] at h
      have h : rangeMapFindNode st.maps i params.ip port params.hash = none := h
      simp only [h]
      exact ⟨_, rfl⟩

theorem nodeDumpRight_iff :
    NodeDumpRight st mapName ipStr port hashString buf ↔
      NodeDumpCond st mapName ipStr port hashString buf.length := by
  unfold NodeDumpRight NodeDumpCond
  cases hp : dumpedNode st mapName ipStr port hashString with
  | none =>
    obtain ⟨errs, hd⟩ := rangeMapDumpNode_of_not_found hp buf
    exact iff_of_true ⟨some errs, buf.length, buf, hd, fun h => nomatch h⟩ fun p h => nomatch h
  | some p =>
    have hd := nodeDumped st p [] buf
    rw [rangeMapDumpNode_of_found hp]
    simp only [Option.some.injEq, forall_eq', exists_eq_left']
    have h5 := five_lt_nodeText st p
    have h5' := five_le_addressText (st.maps.node p).ip (st.maps.node p).port
    have hshort : (addressText (st.maps.node p).ip (st.maps.node p).port).length
        < (nodeText st p).length := by
      unfold nodeText
      simp only [List.length_append, List.length_singleton]
      omega
    generalize nodeFate st p buf.length = fate at hd
    simp only [List.length_nil, List.nil_append] at hd
    generalize rangeMapDumpNodeToBuffer st 0 buf.length buf p = x at hd
    -- 正の `r` は成功になる
    have hok : ∀ (n : Nat) (buf' : List UInt8), 0 < n →
        ((∃ errs r buf'', (if (n : Int) ≤ 0 then
            Except.ok (some "node info buffer too small", (buf.length : Int), buf')
          else (.ok (none, (n : Int), buf') : Except Fault _)) = .ok (errs, r, buf'') ∧
          (errs = none → DumpedWhole (nodeText st p) r buf'')) ↔
          DumpedWhole (nodeText st p) n buf') := by
      intro n buf' hn
      rw [if_neg (by omega)]
      constructor
      · rintro ⟨errs, r, buf'', heq, hw⟩
        cases heq
        exact hw rfl
      · exact fun hw => ⟨none, n, buf', rfl, fun _ => hw⟩
    cases hd with
    | long buf' =>
      refine iff_of_false (fun h => ?_) (by decide)
      rw [ok_bind] at h
      have hw := (hok (addressText (st.maps.node p).ip (st.maps.node p).port).length buf'
        (by omega)).mp h
      have := hw.1
      omega
    | cut buf' hlen =>
      refine iff_of_false (fun h => ?_) (by decide)
      rw [ok_bind] at h
      have hw := (hok 2 buf' (by decide)).mp h
      have := hw.1
      omega
    | refused buf' =>
      exact iff_of_true ⟨_, _, _, rfl, fun h => nomatch h⟩ (Or.inr rfl)
    | full rest' hlen =>
      simp only [List.nil_append, ok_bind]
      exact iff_of_true ((hok (nodeText st p).length (nodeText st p ++ 0 :: rest')
        (by omega)).mpr (dumpedWhole_append _ rest')) (Or.inl trivial)
    | unknown =>
      refine iff_of_false ?_ (by decide)
      rintro ⟨errs, r, buf', h, -⟩
      cases h

theorem snprintf_right_iff {text : List UInt8} (rest : List UInt8) (hne : text ≠ []) :
    (∃ r buf', (.ok (snprintf (0 :: rest) 0 (0 :: rest).length text)
        : Except Fault (Int × List UInt8)) = .ok (r, buf') ∧
      (0 < r → DumpedWhole text r buf')) ↔ text.length < (0 :: rest).length := by
  have hpos : 0 < text.length := List.length_pos_iff.mpr hne
  constructor
  · rintro ⟨r, buf', hr, hw⟩
    obtain ⟨buf, hs, hlen⟩ := snprintf_length [] (0 :: rest) text
    have heq := (congrArg (Except.ok (ε := Fault)) hs.symm).trans hr
    cases heq
    have hle := (hw (by omega)).2.length_le
    rw [List.length_append, List.length_singleton, hlen, List.length_nil] at hle
    omega
  · intro hlt
    exact ⟨_, _, congrArg _ (@snprintf_fits [] _ _ hlt), fun _ => dumpedWhole_append text _⟩

theorem mapDumpRight_iff (name : CStr) (hpos : 1 ≤ buf.length) :
    MapDumpRight st name buf ↔ MapDumpCond st name buf.length := by
  obtain ⟨c, rest, rfl⟩ := List.exists_cons_of_length_pos hpos
  have hbuf : splice (c :: rest) 0 [0] = 0 :: rest := rfl
  unfold MapDumpRight MapDumpCond rangeMapDumpToBuffer
  rw [hbuf]
  cases hi : rangeMapFindByName st.maps name with
  | none =>
    have htext : mapText st name = ascii "range not found\n" := by
      unfold mapText
      rw [hi]
    rw [htext]
    exact snprintf_right_iff rest (by decide)
  | some i =>
    have htext : mapText st name
        = itemsText st (mapItems st.maps true (rangeMapForeach (st.maps.slot i))) := by
      unfold mapText
      rw [hi]
    simp only [htext]
    have hset := @settled_map st (0 :: rest).length (rangeMapForeach (st.maps.slot i)) true
      false [] (0 :: rest) (Nat.zero_add _) fun _ => rfl
    generalize mapItems st.maps true (rangeMapForeach (st.maps.slot i)) = items at hset
    change Dumped st false [] (0 :: rest) items (dumpMapLoop st (0 :: rest).length true 0
      (0 :: rest) (rangeMapForeach (st.maps.slot i))) at hset
    show (∃ r buf', dumpMapLoop st (0 :: rest).length true 0 (0 :: rest) _ = _ ∧ _) ↔
      ¬ Slips st false (0 :: rest).length items
    constructor
    · rintro ⟨r, buf', hr, hw⟩ hs
      rcases hset.slips hs with herr | ⟨n, buf, hn, -, hlt⟩
      · rw [hr] at herr
        cases herr
      · obtain ⟨h0, h1⟩ := hlt rfl
        rw [hr] at hn
        cases hn
        rw [List.length_nil, Nat.zero_add] at hw
        have := (hw (by omega)).1
        omega
    · intro hs
      rcases hset.keeps hs with ⟨buf, hr⟩ | ⟨-, rest', hr⟩
      · exact ⟨-1, buf, hr, fun h => absurd h (by decide)⟩
      · rw [List.length_nil, Nat.zero_add] at hr
        exact ⟨_, _, hr, fun _ => dumpedWhole_append _ rest'⟩

end

/--
**書き出しが「全体か誤り」であるのは、buffer が番地や hash の途中で尽きないとき、かつそのときに限る。**

`buf` は呼び出し側の buffer で、その長さが `buflen` である。
-/
theorem range_map_dump_iff (st : Bee) (buf : List UInt8) (hpos : 1 ≤ buf.length) :
    (∀ (mapName ipStr : CStr) (port : Int) (hashString : CStr),
      NodeDumpRight st mapName ipStr port hashString buf ↔
        NodeDumpCond st mapName ipStr port hashString buf.length) ∧
    ∀ name : CStr, MapDumpRight st name buf ↔ MapDumpCond st name buf.length :=
  ⟨fun _ _ _ _ => nodeDumpRight_iff, fun name => mapDumpRight_iff name hpos⟩

/-! ## 例 -/

/-- 名前 `a` の map に、prefix が `aa` の node を一つ足して読み込んだもの。 -/
def dumpSample : Bee where
  maps := rangeMapRun .init
    [.new (.ofBytes [97]),
      .addNode .remote (some 100) (.ofBytes [97]) (.ofBytes [49, 46, 49, 46, 49, 46, 49]) 80 0
        (.ofBytes [97, 97, 120]),
      .flush (.ofBytes [97])]
  esqBucketRb := .nil
  bucket _ := { rangeMapName := [], hashStr := [] }
  port := 0
  sd := -1

theorem range_map_dump_iff_sample : MapDumpRight dumpSample ⟨[98], by decide⟩ (List.replicate 17 0) :=
  ((range_map_dump_iff dumpSample (List.replicate 17 0) (by decide)).2 ⟨[98], by decide⟩).mpr
    (by
      have hnone : rangeMapFindByName dumpSample.maps ⟨[98], by decide⟩ = none := by decide +kernel
      unfold MapDumpCond mapText
      rw [hnone]
      decide +kernel)

/--
**`1.1.1.1:80:aax` の hash の途中で尽きる buffer では、どちらも成功を返す。**

node を書く方は 2 を、map を書く方は先頭の `1: ` と合わせて 5 を返す。
-/
theorem range_map_dump_cut :
    ¬ NodeDumpRight dumpSample ⟨[97], by decide⟩ ⟨[49, 46, 49, 46, 49, 46, 49], by decide⟩ 80
        ⟨[97, 97, 120], by decide⟩ (List.replicate 13 0) ∧
      ¬ MapDumpRight dumpSample ⟨[97], by decide⟩ (List.replicate 16 0) := by
  constructor
  · intro h
    have hfate : nodeFate dumpSample 100 13 = .cut := by decide +kernel
    rcases nodeDumpRight_iff.mp h 100 (by decide +kernel) with hf | hf
    · exact absurd (hfate.symm.trans hf) (by decide)
    · exact absurd (hfate.symm.trans hf) (by decide)
  · rintro ⟨r, buf', hr, hw⟩
    have hres : (rangeMapDumpToBuffer dumpSample ⟨[97], by decide⟩ (List.replicate 16 0) 16).map
        Prod.fst = .ok 5 := by decide +kernel
    have hlen : (mapText dumpSample ⟨[97], by decide⟩).length = 17 := by decide +kernel
    rw [List.length_replicate] at hr
    rw [hr] at hres
    have h5 : r = 5 := Except.ok.inj hres
    have := (hw (by omega)).1
    omega

end Esq
