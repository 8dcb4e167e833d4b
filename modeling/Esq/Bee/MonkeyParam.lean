import Esq.Bee.Monkey

/-!
# 引数を読む範囲

`bee/monkey.c` の `esq_mkc_get_session_param_by_name` が `payload` のどこを読むか。

`Monkey` の `esqMkcGetSessionParamByName` は送り手が並べた引数を読むためのもので、足りない byte を 0 と
読む。ここでは `payload` は任意の byte の列で、`length` の外を読んだら落ちる。

名前と値が残りに収まることは調べられるが、整数の値は `datalen` に関わらず 4 byte 読まれる。
-/

namespace Esq

/-! ## 読む -/

def readChar (payload : List UInt8) (i : Nat) : Except Fault UInt8 :=
  match payload[i]? with
  | some c => .ok c
  | none => .error .segv

def readChars (payload : List UInt8) (i : Nat) : Nat → Except Fault (List UInt8)
  | 0 => .ok []
  | n + 1 => do
    let c ← readChar payload i
    let cs ← readChars payload (i + 1) n
    .ok (c :: cs)

/-- 戻り値と、`*int_value` か、`payload` の中の `*buf` の位置と `*buf_len`。 -/
inductive MkcFound where
  /-- `MKC_D_VOID` -/
  | void
  /-- `MKC_D_INT` -/
  | int (value : BitVec 32)
  /-- `MKC_D_BUF` -/
  | buf (start len : Nat)
  /-- `MKC_D_ID` -/
  | id (start len : Nat)
deriving DecidableEq, Repr

def MkcFound.param (payload : List UInt8) : MkcFound → MkcParam
  | void => .void
  | int value => .int value
  | buf start len => .buf ((payload.drop start).take len)
  | id start len => .id ((payload.drop start).take len)

def mkcReadValue (types : MkcTypes) (payload : List UInt8) (type datalen offset : Nat) :
    Except Fault MkcFound :=
  if types.int = type then do
    let chars ← readChars payload offset 4
    .ok (.int (intOfChars chars))
  else if types.buf = type then .ok (.buf offset datalen)
  else if types.id = type then .ok (.id offset datalen)
  else .ok .void

/-- `name_len + 1 != namelen || memcmp(name, p + offset, name_len)` の否定。 -/
def mkcNameMatches (payload name : List UInt8) (namelen offset : Nat) : Except Fault Bool :=
  if name.length + 1 ≠ namelen then .ok false
  else do
    let chars ← readChars payload offset name.length
    .ok (memcmp name chars = 0)

def mkcParamLoop (types : MkcTypes) (payload name : List UInt8) (offset : Nat) :
    Except Fault MkcFound :=
  if payload.length - offset ≤ 4 then .ok .void
  else
    match readChars payload offset 4 with
    | .error f => .error f
    | .ok head =>
      let type := ((head.getD 0 0).toNat &&& 0xc) >>> 2
      let namelen := (head.getD 1 0).toNat
      let datalen := ((head.getD 2 0).toNat <<< 8) + (head.getD 3 0).toNat
      let offset := offset + 4
      if payload.length - offset < namelen + datalen then .ok .void
      else
        match mkcNameMatches payload name namelen offset with
        | .error f => .error f
        | .ok false => mkcParamLoop types payload name (offset + (namelen + datalen))
        | .ok true => mkcReadValue types payload type datalen (offset + namelen)
termination_by payload.length - offset

/-- `esq_mkc_get_session_param_by_name`。`params_des` が NULL なら `sd->payload` を読めない。 -/
def mkcGetSessionParamByName (types : MkcTypes) (paramsDes : Option (List UInt8))
    (name : List UInt8) : Except Fault MkcFound :=
  match paramsDes with
  | none => .error .segv
  | some payload => mkcParamLoop types payload name 0

/-! ## payload の形 -/

@[ext] structure MkcRecord where
  head0 : UInt8
  name : List UInt8
  data : List UInt8
  name_lt : name.length < 2 ^ 8
  data_lt : data.length < 2 ^ 16
deriving DecidableEq

namespace MkcRecord

variable (r : MkcRecord)

def type : Nat := (r.head0.toNat &&& 0xc) >>> 2

def bytes : List UInt8 :=
  [r.head0, UInt8.ofNat r.name.length, UInt8.ofNat ((r.data.length >>> 8) &&& 0xff),
    UInt8.ofNat (r.data.length &&& 0xff)] ++ (r.name ++ r.data)

/-- 名前が `name` である。最後の byte は見ない。 -/
def Named (name : List UInt8) : Prop :=
  r.name.length = name.length + 1 ∧ r.name.take name.length = name

instance (name : List UInt8) : Decidable (r.Named name) := inferInstanceAs (Decidable (_ ∧ _))

end MkcRecord

/--
初めて名前の一致する引数が整数で、その名前の後ろに 4 byte 残っていない。`rs` は名前の一致しない引数で、`rest` は
一致した引数より後ろの byte である。
-/
def ShortInt (types : MkcTypes) (name payload : List UInt8) : Prop :=
  ∃ (rs : List MkcRecord) (r : MkcRecord) (rest : List UInt8),
    payload = rs.flatMap MkcRecord.bytes ++ (r.bytes ++ rest) ∧ (∀ s ∈ rs, ¬ s.Named name) ∧
      r.Named name ∧ r.type = types.int ∧ r.data.length + rest.length < 4

/-- `payload` の中だけを読み、返す領域は `payload` の中にある。 -/
structure MkcSafe (payload : List UInt8) (res : Except Fault MkcFound) : Prop where
  reads : ∃ found, res = .ok found
  buf : ∀ start len, res = .ok (.buf start len) → start + len ≤ payload.length
  id : ∀ start len, res = .ok (.id start len) → start + len ≤ payload.length

/-! ## 範囲の中と外 -/

section

variable {types : MkcTypes} {payload name pre p : List UInt8} {i n : Nat}

theorem readChars_of_le : ∀ {n i : Nat}, i + n ≤ payload.length →
    readChars payload i n = .ok ((payload.drop i).take n)
  | 0, i, _ => rfl
  | n + 1, i, h => by
    have hi : i < payload.length := by omega
    have hc : readChar payload i = .ok payload[i] := by
      unfold readChar
      rw [List.getElem?_eq_getElem hi]
    have ih : readChars payload (i + 1) n = .ok ((payload.drop (i + 1)).take n) :=
      readChars_of_le (by omega)
    unfold readChars
    rw [hc, ih, List.drop_eq_getElem_cons hi]
    rfl

theorem readChars_of_lt : ∀ {n i : Nat}, i ≤ payload.length → payload.length < i + n →
    readChars payload i n = .error .segv
  | 0, i, hi, h => by omega
  | n + 1, i, hi, h => by
    unfold readChars
    by_cases hlt : i < payload.length
    · have hc : readChar payload i = .ok payload[i] := by
        unfold readChar
        rw [List.getElem?_eq_getElem hlt]
      have ih : readChars payload (i + 1) n = .error .segv := readChars_of_lt hlt (by omega)
      rw [hc]
      show (readChars payload (i + 1) n >>= _) = _
      rw [ih]
      rfl
    · have hc : readChar payload i = .error .segv := by
        unfold readChar
        rw [List.getElem?_eq_none (by omega)]
      rw [hc]
      rfl

theorem readChars_append (pre s rest : List UInt8) :
    readChars (pre ++ (s ++ rest)) pre.length s.length = .ok s := by
  rw [readChars_of_le (by simp only [List.length_append]; omega), List.drop_left, List.take_left]

/-! ## 引数一つ分 -/

namespace MkcRecord

variable {r s : MkcRecord}

theorem length_bytes (r : MkcRecord) : r.bytes.length = 4 + (r.name.length + r.data.length) := by
  simp only [bytes, List.length_append, List.length_cons, List.length_nil]

theorem toNat_name (r : MkcRecord) : (UInt8.ofNat r.name.length).toNat = r.name.length :=
  UInt8.toNat_ofNat_of_lt r.name_lt

theorem append_inj {rest rest' : List UInt8} (h : r.bytes ++ rest = s.bytes ++ rest') :
    r = s ∧ rest = rest' := by
  simp only [bytes, List.cons_append, List.nil_append, List.append_assoc, List.cons.injEq] at h
  obtain ⟨h0, h1, h2, h3, htail⟩ := h
  have hname : r.name.length = s.name.length := by
    rw [← r.toNat_name, h1, s.toNat_name]
  have hdata : r.data.length = s.data.length := by
    rw [← headerDataLength r.data_lt, h2, h3, headerDataLength s.data_lt]
  obtain ⟨hn, htail⟩ := List.append_inj htail hname
  obtain ⟨hd, hrest⟩ := List.append_inj htail hdata
  exact ⟨MkcRecord.ext h0 hn hd, hrest⟩

end MkcRecord

theorem mkcNameMatches_record (pre : List UInt8) (r : MkcRecord) (rest : List UInt8) :
    mkcNameMatches (pre ++ (r.name ++ rest)) name r.name.length pre.length
      = .ok (decide (r.Named name)) := by
  unfold mkcNameMatches
  by_cases hl : r.name.length = name.length + 1
  · rw [if_neg (by omega)]
    have hread : readChars (pre ++ (r.name ++ rest)) pre.length name.length
        = .ok (r.name.take name.length) := by
      rw [readChars_of_le (by simp only [List.length_append]; omega), List.drop_left,
        List.take_append_of_le_length (by omega)]
    rw [hread]
    show Except.ok (decide (memcmp name (r.name.take name.length) = 0)) = _
    congr 1
    refine decide_eq_decide.mpr ⟨fun h => ⟨hl, ?_⟩, fun h => ?_⟩
    · exact (memcmp_eq_zero (by rw [List.length_take]; omega) h).symm
    · rw [h.2, memcmp_self]
  · rw [if_pos (by omega), decide_eq_false (fun h => hl h.1)]

theorem mkcParamLoop_short (h : payload.length - i ≤ 4) :
    mkcParamLoop types payload name i = .ok .void := by
  rw [mkcParamLoop, if_pos h]

theorem mkcParamLoop_record (pre : List UInt8) (r : MkcRecord) (rest : List UInt8) :
    mkcParamLoop types (pre ++ (r.bytes ++ rest)) name pre.length
      = if r.Named name then
          mkcReadValue types (pre ++ (r.bytes ++ rest)) r.type r.data.length
            (pre.length + 4 + r.name.length)
        else mkcParamLoop types (pre ++ (r.bytes ++ rest)) name (pre.length + r.bytes.length) := by
  have hlen := r.length_bytes
  by_cases hshort : (r.bytes ++ rest).length ≤ 4
  · -- 名前も値も後ろも空である。
    have hl : (pre ++ (r.bytes ++ rest)).length = pre.length + (r.bytes ++ rest).length :=
      List.length_append
    rw [List.length_append] at hshort
    rw [mkcParamLoop_short (by rw [hl, List.length_append]; omega),
      if_neg (fun h => by have := h.1; omega),
      mkcParamLoop_short (by rw [hl, List.length_append]; omega)]
  · rw [List.length_append] at hshort
    set head := [r.head0, UInt8.ofNat r.name.length, UInt8.ofNat ((r.data.length >>> 8) &&& 0xff),
      UInt8.ofNat (r.data.length &&& 0xff)] with hhead
    have hsplit : pre ++ (r.bytes ++ rest) = (pre ++ head) ++ (r.name ++ (r.data ++ rest)) := by
      simp only [MkcRecord.bytes, hhead, List.append_assoc]
    have hread : readChars (pre ++ (r.bytes ++ rest)) pre.length 4 = .ok head := by
      rw [hsplit, List.append_assoc]
      exact readChars_append pre head _
    have hmatch : mkcNameMatches (pre ++ (r.bytes ++ rest)) name r.name.length (pre.length + 4)
        = .ok (decide (r.Named name)) := by
      rw [hsplit]
      have := @mkcNameMatches_record name (pre ++ head) r (r.data ++ rest)
      rwa [List.length_append] at this
    rw [mkcParamLoop, if_neg (by simp only [List.length_append]; omega), hread]
    simp only [hhead, List.getD_cons_zero, List.getD_cons_succ, MkcRecord.toNat_name,
      headerDataLength r.data_lt]
    rw [if_neg (by simp only [List.length_append]; omega), hmatch]
    by_cases hn : r.Named name
    · rw [if_pos hn, decide_eq_true hn]
      rfl
    · rw [if_neg hn, decide_eq_false hn]
      show mkcParamLoop types _ name (pre.length + 4 + (r.name.length + r.data.length)) = _
      rw [hlen, Nat.add_assoc]

theorem exists_record {h0 h1 h2 h3 : UInt8} {rest : List UInt8}
    (hfit : h1.toNat + ((h2.toNat <<< 8) + h3.toNat) ≤ rest.length) :
    ∃ (r : MkcRecord) (tail : List UInt8), h0 :: h1 :: h2 :: h3 :: rest = r.bytes ++ tail := by
  set datalen := (h2.toNat <<< 8) + h3.toNat with hdef
  have h2lt : h2.toNat < 2 ^ 8 := h2.toNat_lt
  have h3lt : h3.toNat < 2 ^ 8 := h3.toNat_lt
  rw [Nat.shiftLeft_eq] at hdef
  have hname : (rest.take h1.toNat).length = h1.toNat := by
    rw [List.length_take]
    omega
  have hdata : ((rest.drop h1.toNat).take datalen).length = datalen := by
    rw [List.length_take, List.length_drop]
    omega
  have hb2 : UInt8.ofNat ((datalen >>> 8) &&& 0xff) = h2 := by
    rw [Nat.and_two_pow_sub_one_eq_mod _ 8, Nat.shiftRight_eq_div_pow,
      show datalen / 2 ^ 8 % 2 ^ 8 = h2.toNat by omega]
    exact UInt8.ofNat_toNat
  have hb3 : UInt8.ofNat (datalen &&& 0xff) = h3 := by
    rw [Nat.and_two_pow_sub_one_eq_mod _ 8, show datalen % 2 ^ 8 = h3.toNat by omega]
    exact UInt8.ofNat_toNat
  refine ⟨⟨h0, rest.take h1.toNat, (rest.drop h1.toNat).take datalen,
    by rw [hname]; exact h1.toNat_lt, by rw [hdata]; omega⟩,
    (rest.drop h1.toNat).drop datalen, ?_⟩
  simp only [MkcRecord.bytes, hname, hdata, hb2, hb3, UInt8.ofNat_toNat, List.cons_append,
    List.nil_append, List.append_assoc, List.take_append_drop]

theorem mkcParamLoop_broken (pre : List UInt8)
    (h : ∀ (r : MkcRecord) (rest : List UInt8), p ≠ r.bytes ++ rest) :
    mkcParamLoop types (pre ++ p) name pre.length = .ok .void := by
  have hl : (pre ++ p).length = pre.length + p.length := List.length_append
  by_cases hshort : p.length ≤ 4
  · exact mkcParamLoop_short (by omega)
  · match p, hshort with
    | [], hs | [_], hs | [_, _], hs | [_, _, _], hs => exact absurd (by simp) hs
    | h0 :: h1 :: h2 :: h3 :: rest, hshort =>
      have hread : readChars (pre ++ (h0 :: h1 :: h2 :: h3 :: rest)) pre.length 4
          = .ok [h0, h1, h2, h3] := readChars_append pre [h0, h1, h2, h3] rest
      rw [mkcParamLoop, if_neg (by omega), hread]
      simp only [List.getD_cons_zero, List.getD_cons_succ]
      rw [if_pos]
      by_contra hfit
      obtain ⟨r, tail, heq⟩ := @exists_record h0 h1 h2 h3 rest (by
        simp only [List.length_append, List.length_cons] at hfit
        omega)
      exact h r tail heq

/-! ## 落ちるとき -/

theorem ShortInt.head (h : ShortInt types name p) :
    ∃ (r : MkcRecord) (rest : List UInt8), p = r.bytes ++ rest := by
  obtain ⟨rs, r, rest, rfl, -⟩ := h
  cases rs with
  | nil => exact ⟨r, rest, rfl⟩
  | cons s rs => exact ⟨s, _, by rw [List.flatMap_cons, List.append_assoc]⟩

theorem shortInt_record (r : MkcRecord) (rest : List UInt8) :
    ShortInt types name (r.bytes ++ rest) ↔
      if r.Named name then r.type = types.int ∧ r.data.length + rest.length < 4
      else ShortInt types name rest := by
  constructor
  · rintro ⟨rs, s, rest', heq, hrs, hs, htype, hlen⟩
    cases rs with
    | nil =>
      obtain ⟨rfl, rfl⟩ := MkcRecord.append_inj heq
      rw [if_pos hs]
      exact ⟨htype, hlen⟩
    | cons t rs =>
      rw [List.flatMap_cons, List.append_assoc] at heq
      obtain ⟨rfl, rfl⟩ := MkcRecord.append_inj heq
      rw [if_neg (hrs r List.mem_cons_self)]
      exact ⟨rs, s, rest', rfl, fun u hu => hrs u (List.mem_cons_of_mem _ hu), hs, htype, hlen⟩
  · intro h
    split at h
    next hn => exact ⟨[], r, rest, rfl, fun _ hs => (nomatch hs), hn, h.1, h.2⟩
    next hn =>
      obtain ⟨rs, s, rest', rfl, hrs, hs, htype, hlen⟩ := h
      refine ⟨r :: rs, s, rest', ?_, ?_, hs, htype, hlen⟩
      · rw [List.flatMap_cons, List.append_assoc]
      · exact List.forall_mem_cons.mpr ⟨hn, hrs⟩

theorem mkcSafe_void (payload : List UInt8) : MkcSafe payload (.ok .void) :=
  ⟨⟨_, rfl⟩, fun _ _ h => (nomatch h), fun _ _ h => (nomatch h)⟩

theorem mkcReadValue_safe_iff {type datalen offset : Nat} (h : offset + datalen ≤ payload.length) :
    MkcSafe payload (mkcReadValue types payload type datalen offset) ↔
      ¬ (type = types.int ∧ payload.length < offset + 4) := by
  unfold mkcReadValue
  by_cases hint : types.int = type
  · rw [if_pos hint]
    by_cases hlen : payload.length < offset + 4
    · rw [readChars_of_lt (by omega) hlen]
      constructor
      · rintro ⟨⟨found, hf⟩, -, -⟩
        cases hf
      · intro hn
        exact absurd ⟨hint.symm, hlen⟩ hn
    · rw [readChars_of_le (by omega)]
      constructor
      · intro _ hs
        exact hlen hs.2
      · intro _
        exact ⟨⟨_, rfl⟩, fun _ _ h => (by cases h), fun _ _ h => (by cases h)⟩
  · rw [if_neg hint]
    refine ⟨fun _ hs => hint hs.1.symm, fun _ => ?_⟩
    split
    · exact ⟨⟨_, rfl⟩, fun _ _ h' => (by cases h'; exact h), fun _ _ h' => (nomatch h')⟩
    · split
      · exact ⟨⟨_, rfl⟩, fun _ _ h' => (nomatch h'), fun _ _ h' => (by cases h'; exact h)⟩
      · exact mkcSafe_void _

theorem mkcParamLoop_safe_iff (types : MkcTypes) (name : List UInt8) :
    ∀ (n : Nat) (pre p : List UInt8), p.length ≤ n →
      (MkcSafe (pre ++ p) (mkcParamLoop types (pre ++ p) name pre.length) ↔
        ¬ ShortInt types name p) := by
  intro n
  induction n with
  | zero =>
    intro pre p hp
    rw [mkcParamLoop_short (by rw [List.length_append]; omega)]
    refine ⟨fun _ hs => ?_, fun _ => mkcSafe_void _⟩
    obtain ⟨r, rest, rfl⟩ := hs.head
    have := r.length_bytes
    rw [List.length_append] at hp
    omega
  | succ n ih =>
    intro pre p hp
    by_cases hrec : ∃ (r : MkcRecord) (rest : List UInt8), p = r.bytes ++ rest
    · obtain ⟨r, rest, rfl⟩ := hrec
      have hlen := r.length_bytes
      rw [List.length_append] at hp
      rw [mkcParamLoop_record, shortInt_record]
      by_cases hn : r.Named name
      · rw [if_pos hn, if_pos hn, mkcReadValue_safe_iff (by simp only [List.length_append]; omega)]
        simp only [List.length_append]
        refine not_congr (and_congr_right fun _ => ?_)
        omega
      · -- 一致しなければ、残りについての帰納法の仮定になる。
        rw [if_neg hn, if_neg hn, ← List.append_assoc, ← List.length_append]
        exact ih (pre ++ r.bytes) rest (by omega)
    · rw [mkcParamLoop_broken pre fun r rest h => hrec ⟨r, rest, h⟩]
      exact ⟨fun _ hs => hrec hs.head, fun _ => mkcSafe_void _⟩

/--
**`esq_mkc_get_session_param_by_name` が `payload` の中だけを読むのは、初めて名前の一致する引数が、4 byte
残っていない整数でないときに限る。** 返す領域はいつも `payload` の中にある。
-/
theorem mkc_param_reads_inside_iff (types : MkcTypes) (payload name : List UInt8) :
    MkcSafe payload (mkcGetSessionParamByName types (some payload) name) ↔
      ¬ ShortInt types name payload := by
  have h := mkcParamLoop_safe_iff types name payload.length [] payload le_rfl
  exact h

/-! ## 足りない byte を 0 と読むモデル -/

theorem esqMkcGetSessionParamByName_record (r : MkcRecord) (rest : List UInt8) :
    esqMkcGetSessionParamByName types name (r.bytes ++ rest)
      = if r.Named name then mkcParamValue types r.type r.data.length (r.data ++ rest)
        else esqMkcGetSessionParamByName types name rest := by
  show esqMkcGetSessionParamByName types name (_ :: _ :: _ :: _ :: (r.name ++ r.data ++ rest)) = _
  rw [esqMkcGetSessionParamByName, MkcRecord.toNat_name, headerDataLength r.data_lt]
  by_cases hnil : r.name ++ r.data ++ rest = []
  · rw [if_pos hnil]
    simp only [List.append_eq_nil_iff] at hnil
    obtain ⟨⟨hn, -⟩, rfl⟩ := hnil
    rw [if_neg (fun h => by have := h.1; rw [hn] at this; cases this)]
    simp [esqMkcGetSessionParamByName]
  · have hskip : (r.name ++ r.data ++ rest).drop (r.name.length + r.data.length) = rest := by
      rw [← List.length_append, List.drop_left]
    have hvalue : (r.name ++ r.data ++ rest).drop r.name.length = r.data ++ rest := by
      rw [List.append_assoc, List.drop_left]
    rw [if_neg hnil]
    simp only [hskip, hvalue]
    rw [if_neg (by simp only [List.length_append]; omega)]
    by_cases hl : r.name.length = name.length + 1
    · have htake : (r.name ++ r.data ++ rest).take name.length = r.name.take name.length := by
        rw [List.append_assoc, List.take_append_of_le_length (by omega)]
      rw [htake]
      by_cases hname : r.name.take name.length = name
      · rw [if_neg (by rw [hname, memcmp_self]; omega), if_pos ⟨hl, hname⟩]
        rfl
      · rw [if_pos (Or.inr fun h => hname (memcmp_eq_zero (by rw [List.length_take]; omega) h).symm),
          if_neg fun h => hname h.2]
    · rw [if_pos (Or.inl (by omega)), if_neg fun h => hl h.1]

theorem esqMkcGetSessionParamByName_broken
    (h : ∀ (r : MkcRecord) (rest : List UInt8), p ≠ r.bytes ++ rest) :
    esqMkcGetSessionParamByName types name p = .void := by
  match p, h with
  | [], _ | [_], _ | [_, _], _ | [_, _, _], _ => simp [esqMkcGetSessionParamByName]
  | h0 :: h1 :: h2 :: h3 :: rest, h =>
    rw [esqMkcGetSessionParamByName]
    by_cases hnil : rest = []
    · rw [if_pos hnil]
    · rw [if_neg hnil]
      dsimp only
      rw [if_pos]
      by_contra hfit
      obtain ⟨r, tail, heq⟩ := @exists_record h0 h1 h2 h3 rest (by omega)
      exact h r tail heq

theorem intOfChars_take (chars : List UInt8) : intOfChars (chars.take 4) = intOfChars chars := by
  unfold intOfChars
  simp [List.getD, List.getElem?_take]

theorem mkcParamValue_eq {type datalen offset : Nat} {found : MkcFound}
    (h : offset + datalen ≤ payload.length)
    (hf : mkcReadValue types payload type datalen offset = .ok found) :
    mkcParamValue types type datalen (payload.drop offset) = found.param payload := by
  unfold mkcReadValue at hf
  unfold mkcParamValue
  split at hf
  next hint =>
    rw [if_pos hint]
    by_cases hlen : payload.length < offset + 4
    · rw [readChars_of_lt (by omega) hlen] at hf
      cases hf
    · rw [readChars_of_le (by omega)] at hf
      cases hf
      exact congrArg MkcParam.int (intOfChars_take _).symm
  next hint =>
    rw [if_neg hint]
    split at hf
    next hbuf =>
      rw [if_pos hbuf]
      cases hf
      rfl
    next hbuf =>
      rw [if_neg hbuf]
      split at hf
      next hid =>
        rw [if_pos hid]
        cases hf
        rfl
      next hid =>
        rw [if_neg hid]
        cases hf
        rfl

theorem mkcParamLoop_eq (types : MkcTypes) (name : List UInt8) (found : MkcFound) :
    ∀ (n : Nat) (pre p : List UInt8), p.length ≤ n →
      mkcParamLoop types (pre ++ p) name pre.length = .ok found →
      esqMkcGetSessionParamByName types name p = found.param (pre ++ p) := by
  intro n
  induction n with
  | zero =>
    intro pre p hp hf
    have hnil : p = [] := List.length_eq_zero_iff.mp (by omega)
    subst hnil
    rw [mkcParamLoop_short (by rw [List.append_nil]; omega)] at hf
    cases hf
    simp [esqMkcGetSessionParamByName, MkcFound.param]
  | succ n ih =>
    intro pre p hp hf
    by_cases hrec : ∃ (r : MkcRecord) (rest : List UInt8), p = r.bytes ++ rest
    · obtain ⟨r, rest, rfl⟩ := hrec
      have hlen := r.length_bytes
      rw [List.length_append] at hp
      rw [mkcParamLoop_record] at hf
      rw [esqMkcGetSessionParamByName_record]
      by_cases hn : r.Named name
      · rw [if_pos hn] at hf ⊢
        have hvalue : (pre ++ (r.bytes ++ rest)).drop (pre.length + 4 + r.name.length)
            = r.data ++ rest := by
          rw [Nat.add_assoc, ← List.drop_drop, List.drop_left, ← List.drop_drop]
          show (r.name ++ r.data ++ rest).drop r.name.length = _
          rw [List.append_assoc, List.drop_left]
        rw [← hvalue]
        exact mkcParamValue_eq (by simp only [List.length_append]; omega) hf
      · rw [if_neg hn] at hf ⊢
        rw [← List.append_assoc, ← List.length_append] at hf
        rw [← List.append_assoc]
        exact ih (pre ++ r.bytes) rest (by omega) hf
    · have hbroken : ∀ (r : MkcRecord) (rest : List UInt8), p ≠ r.bytes ++ rest :=
        fun r rest h => hrec ⟨r, rest, h⟩
      rw [mkcParamLoop_broken pre hbroken] at hf
      cases hf
      exact esqMkcGetSessionParamByName_broken hbroken

theorem mkcGetSessionParamByName_eq {found : MkcFound}
    (hf : mkcGetSessionParamByName types (some payload) name = .ok found) :
    esqMkcGetSessionParamByName types name payload = found.param payload :=
  mkcParamLoop_eq types name found payload.length [] payload le_rfl hf

/-- 名前が `"a"` で値の無い整数だけの payload では、終わりの先を読む。 -/
theorem mkc_param_reads_past_payload :
    mkcGetSessionParamByName .sample (some [0, 2, 0, 0, 97, 0]) [97] = .error .segv ∧
      ¬ MkcSafe [0, 2, 0, 0, 97, 0]
        (mkcGetSessionParamByName .sample (some [0, 2, 0, 0, 97, 0]) [97]) := by
  have hread : mkcGetSessionParamByName .sample (some [0, 2, 0, 0, 97, 0]) [97] = .error .segv := by
    show mkcParamLoop .sample [0, 2, 0, 0, 97, 0] [97] 0 = .error .segv
    rw [mkcParamLoop]
    rfl
  refine ⟨hread, fun h => ?_⟩
  obtain ⟨found, hf⟩ := h.reads
  rw [hread] at hf
  cases hf

end

end Esq
