import Esq.PostData.Join

/-!
# 終わりまで読める本体

終わりの印まで読めた本体は、token を並べたものである。
-/

namespace Esq

open Infra

section

variable {σ : Type*} {beyond : Nat → UInt8} {buf line : List UInt8}
  {cb : PostDataParserAppCb σ} {s s' : PdpState σ} {ts : List PostToken}

theorem getNameEnd_split {start : Nat} (h : ¬getNameEnd buf start ≤ 0) :
    ∃ v rest, buf.drop start = v ++ 34 :: rest ∧ 34 ∉ v ∧
      getNameEnd buf start = start + v.length := by
  by_cases hmem : 34 ∈ buf.drop start
  · obtain ⟨v, rest, hrest, hv⟩ := List.eq_append_cons_of_mem hmem
    exact ⟨v, rest, hrest, hv, getNameEnd_eq hrest hv⟩
  · rw [getNameEnd_none hmem] at h
    exact absurd (by decide) h

theorem value_split {k : Nat} (hfind : memmem (buf.drop s.i) (delimiter line) = some k)
    (hi : s'.i = s.i + k + ((delimiter line).length + 1)) (hi' : s'.i < buf.length) :
    ∃ v c, Delimited line v ∧ buf.drop s.i = v ++ (delimiter line ++ [c]) ++ buf.drop s'.i := by
  obtain ⟨t, hsplit, hlen, hv⟩ := findInfix_split hfind
  have hdrop : buf.drop (s.i + k + (delimiter line).length) = t := by
    have h := drop_add_of_drop hsplit
    rw [hlen] at h
    exact drop_add_of_drop h
  have hlt : s.i + k + (delimiter line).length < buf.length := by omega
  rw [List.drop_eq_getElem_cons hlt, Nat.add_assoc _ _ 1, ← hi] at hdrop
  refine ⟨_, buf[s.i + k + (delimiter line).length], hv, ?_⟩
  rw [List.append_assoc, List.append_assoc, List.singleton_append, hdrop]
  exact hsplit

variable (hcb : ∀ a e b, (cb a e b).1 = 0)

include hcb

omit hcb in
theorem andThen_ok_ne (r : PdpNext × PdpState σ) : andThen r (fun s => (.ok, s)) ≠ (.next, s') := by
  obtain ⟨n, s⟩ := r
  cases n <;> exact fun h => nomatch h

theorem value_inv {k : Nat} (hfind : memmem (buf.drop s.i) (delimiter line) = some k)
    (h : andThen (consumeItem beyond buf cb (s.read s.i (buf.length - s.i)) .value k)
      (fun s => consumeItem beyond buf cb s .boundary ((delimiter line).length + 1)) = (.next, s'))
    (hi' : s'.i < buf.length) (hrest : buf.drop s'.i = renderTokens line ts) :
    s'.lastItemType = .boundary ∧
      ∃ v c, Delimited line v ∧ buf.drop s.i = renderTokens line (.value v c :: ts) := by
  obtain ⟨s₁, hs₁, hlast₁, hi₁⟩ := valueBoundary_took hcb beyond buf (delimiter line)
    (s.read s.i (buf.length - s.i)) k
  obtain rfl : s₁ = s' := (Prod.mk.inj (hs₁.symm.trans h)).2
  obtain ⟨v, c, hv, hsplit⟩ := value_split hfind hi₁ hi'
  rw [hrest] at hsplit
  exact ⟨hlast₁, v, c, hv, hsplit⟩

theorem text_inv {x : PostToken} {s₀ : PdpState σ} (hi : s.i ≤ buf.length) (hs₀ : s₀.i = s.i)
    (h : consumeItem beyond buf cb s₀ x.after (x.render line).length = (.next, s'))
    (hpre : x.render line <+: buf.drop s.i) (ht : Tokens line s'.lastItemType ts)
    (hrest : buf.drop s'.i = renderTokens line ts) :
    Tokens line x.after ts ∧ buf.drop s.i = renderTokens line (x :: ts) := by
  obtain ⟨rest, hsplit⟩ := hpre
  obtain ⟨s₁, hs₁, htook⟩ := consumeItem_took hcb beyond s₀ x.after rfl (hs₀ ▸ hsplit.symm)
    (hs₀ ▸ hi)
  obtain rfl : s₁ = s' := (Prod.mk.inj (hs₁.symm.trans h)).2
  refine ⟨htook.last ▸ ht, ?_⟩
  rw [htook.i, hs₀, drop_add_of_drop hsplit.symm] at hrest
  rw [← hsplit, hrest, renderTokens_cons]

theorem quoted_inv {text : List UInt8} {e : PostEt} {s₀ : PdpState σ} (hs₀ : s₀.i = s.i)
    (h : (if getNameEnd buf (s₀.i + text.length) ≤ 0 then (.exx, s₀)
      else consumeItem2 beyond buf cb s₀ e (getNameEnd buf (s₀.i + text.length) - s₀.i + 1)
        (s₀.i + text.length) (getNameEnd buf (s₀.i + text.length) - s₀.i - text.length))
          = (.next, s'))
    (hpre : text <+: buf.drop s.i) (hrest : buf.drop s'.i = renderTokens line ts) :
    s'.lastItemType = e ∧ ∃ v, 34 ∉ v ∧ buf.drop s.i
      = text ++ (v ++ [34]) ++ renderTokens line ts := by
  obtain ⟨tail, hsplit⟩ := hpre
  split at h
  · cases h
  · next hpos =>
    obtain ⟨v, rest, hname, hv, hend⟩ := getNameEnd_split hpos
    rw [hs₀, drop_add_of_drop hsplit.symm] at hname
    rw [hend] at h
    obtain ⟨s₁, hs₁, htook⟩ := consumeItem2_took hcb beyond buf s₀ e (s₀.i + text.length)
      (show ((s₀.i + text.length : Nat) : Int) + v.length - s₀.i + 1
        = (text.length + v.length + 1 : Nat) by omega)
      (show ((s₀.i + text.length : Nat) : Int) + v.length - s₀.i - text.length = v.length by omega)
    obtain rfl : s₁ = s' := (Prod.mk.inj (hs₁.symm.trans h)).2
    have hfull : buf.drop s.i = (text ++ (v ++ [34])) ++ rest := by
      rw [← hsplit, hname, List.append_assoc, List.append_assoc, List.singleton_append]
    have hlen : text.length + v.length + 1 = (text ++ (v ++ [34])).length := by
      rw [List.length_append, List.length_append, List.length_singleton, Nat.add_assoc]
    rw [htook.i, hs₀, hlen, drop_add_of_drop hfull] at hrest
    exact ⟨htook.last, v, hv, hrest ▸ hfull⟩

theorem contentType_inv {k : Nat} {s₀ : PdpState σ} (hs₀ : s₀.i = s.i)
    (hpre : contentTypePrefix <+: buf.drop s.i)
      (hlong : contentTypePrefix.length + 2 ≤ buf.length - s.i)
    (hfind : memmem (readBytes beyond buf (s.i + (contentTypePrefix.length + 1))
      (buf.length - s.i)) crlf
      = some k)
    (h : consumeItem2 beyond buf cb s₀ .contentType
      (((s.i + (contentTypePrefix.length + 1) : Nat) : Int) + k - s₀.i)
        (s₀.i + contentTypePrefix.length)
      (((s.i + (contentTypePrefix.length + 1) : Nat) : Int) + k - s₀.i - contentTypePrefix.length)
      = (.next, s'))
    (hi' : s'.i < buf.length) (ht : Tokens line s'.lastItemType ts)
    (hrest : buf.drop s'.i = renderTokens line ts) :
    ∃ x, Tokens line .filename (x :: ts) ∧ buf.drop s.i = renderTokens line (x :: ts) := by
  obtain ⟨tail, hsplit⟩ := hpre
  rw [hs₀] at h
  obtain ⟨s₁, hs₁, htook⟩ := consumeItem2_took hcb beyond buf s₀ .contentType
    (s.i + contentTypePrefix.length)
    (show ((s.i + (contentTypePrefix.length + 1) : Nat) : Int) + k - s.i
      = (contentTypePrefix.length + 1 + k : Nat) by omega)
    (show ((s.i + (contentTypePrefix.length + 1) : Nat) : Int) + k - s.i - contentTypePrefix.length
      = (k + 1 : Nat) by omega)
  obtain rfl : s₁ = s' := (Prod.mk.inj (hs₁.symm.trans h)).2
  rw [htook.last] at ht
  rw [htook.i, hs₀] at hrest hi'
  obtain ⟨c, tail, rfl⟩ : ∃ c tail', tail = c :: tail' := by
    refine List.exists_cons_of_length_pos ?_
    have hlen := congrArg List.length hsplit
    rw [List.length_append, List.length_drop] at hlen
    omega
  have htail : buf.drop (s.i + (contentTypePrefix.length + 1)) = tail := by
    rw [← Nat.add_assoc, ← List.drop_drop, drop_add_of_drop hsplit.symm]
    rfl
  have hrest' : tail.drop k = renderTokens line ts := by
    rw [← htail, List.drop_drop, ← hrest]
    exact congrArg (buf.drop ·) (by omega)
  have hk : k ≤ tail.length := by
    rw [← htail, List.length_drop]
    omega
  refine ⟨.contentType (c :: tail.take k), .contentType (List.cons_ne_nil _ _) ?_ ht, ?_⟩
  · -- 空行の初めの改行までで、初めて見つかる
    cases ht with
    | @emptyType us h =>
      rw [readBytes_across beyond (by omega) (by omega), htail] at hfind
      obtain ⟨_, -, -, hfirst⟩ := findInfix_split hfind
      rw [List.take_append_of_le_length hk] at hfirst
      rw [List.length_cons, Nat.add_sub_cancel]
      exact hfirst
  · rw [renderTokens_cons, PostToken.render, ← hrest', List.append_assoc, List.cons_append,
      List.take_append_drop]
    exact hsplit.symm

/-- **読み進んだ一回りは、token を一つ読んでいる。** -/
theorem pdpTurn_next_inv (h : pdpTurn beyond buf cb (delimiter line) s = (.next, s'))
    (hi : s.i ≤ buf.length) (hi' : s'.i < buf.length) (ht : Tokens line s'.lastItemType ts)
    (hrest : buf.drop s'.i = renderTokens line ts) :
    ∃ x, Tokens line s.lastItemType (x :: ts) ∧ buf.drop s.i = renderTokens line (x :: ts) := by
  unfold pdpTurn at h
  cases hlast : s.lastItemType with
  | void =>
    rw [hlast] at h
    cases h
  | error =>
    rw [hlast] at h
    cases h
  | finish =>
    rw [hlast] at h
    cases h
  | emptyLine =>
    rw [hlast] at h
    dsimp only at h
    rw [readBytes_rest beyond hi] at h
    split at h
    · next k hfind =>
      obtain ⟨hlast', v, c, hv, hsplit⟩ := value_inv hcb hfind h hi' hrest
      exact ⟨.value v c, .value hv (hlast' ▸ ht), hsplit⟩
    · exact absurd h (andThen_ok_ne _)
  | value =>
    rw [hlast] at h
    dsimp only at h
    rw [readBytes_rest beyond hi] at h
    split at h
    · next hfind =>
      obtain ⟨s₁, hs₁, htook⟩ := consumeItem2_took hcb beyond buf
        (s.read s.i (buf.length - s.i)) .boundary s.i
        (show ((delimiter line).length : Int) + 1 = ((delimiter line).length + 1 : Nat) by omega)
        (show ((delimiter line).length : Int) + 1 = ((delimiter line).length + 1 : Nat) by omega)
      obtain rfl : s₁ = s' := (Prod.mk.inj (hs₁.symm.trans h)).2
      obtain ⟨v, c, hv, hsplit⟩ := value_split hfind htook.i hi'
      rw [hrest] at hsplit
      exact ⟨.value v c, .rest hv (htook.last ▸ ht), hsplit⟩
    · next k _ hfind =>
      obtain ⟨hlast', v, c, hv, hsplit⟩ := value_inv hcb hfind h hi' hrest
      exact ⟨.value v c, .rest hv (hlast' ▸ ht), hsplit⟩
    · exact absurd h (andThen_ok_ne _)
  | boundary =>
    obtain ⟨s₀, hlook, hs₀, -⟩ := looksAt_spec beyond buf contentDfd s le_rfl
    rw [hlast] at h
    dsimp only at h
    rw [hlook] at h
    dsimp only at h
    split at h
    · next hfound =>
      obtain ⟨hts, hsplit⟩ := text_inv hcb (x := .formData) hi hs₀ h
        (of_decide_eq_true hfound).2 ht hrest
      exact ⟨.formData, .formData hts, hsplit⟩
    · split at h <;> cases h
  | contentFormData =>
    obtain ⟨s₀, hlook, hs₀, -⟩ := looksAt_spec beyond buf nameS s le_rfl
    rw [hlast] at h
    dsimp only at h
    rw [hlook] at h
    dsimp only at h
    split at h
    · next hfound =>
      obtain ⟨hlast', v, hv, hsplit⟩ := quoted_inv hcb hs₀ h (of_decide_eq_true hfound).2 hrest
      exact ⟨.name v, .name hv (hlast' ▸ ht), hsplit⟩
    · cases h
  | name =>
    obtain ⟨s₀, hlook, hs₀, -⟩ := looksAt_spec beyond buf fnameS s le_rfl
    obtain ⟨s₁, hlook₁, hs₁, -⟩ := looksAt_spec beyond buf emptyLine s₀ le_rfl
    rw [hlast] at h
    dsimp only at h
    rw [hlook] at h
    dsimp only at h
    split at h
    · next hfound =>
      obtain ⟨hlast', v, hv, hsplit⟩ := quoted_inv hcb hs₀ h (of_decide_eq_true hfound).2 hrest
      exact ⟨.filename v, .filename hv (hlast' ▸ ht), hsplit⟩
    · rw [hlook₁, hs₀] at h
      dsimp only at h
      split at h
      · next hfound =>
        obtain ⟨hts, hsplit⟩ := text_inv hcb (x := .emptyLine) hi (hs₁.trans hs₀) h
          (of_decide_eq_true hfound).2 ht hrest
        exact ⟨.emptyLine, .emptyName hts, hsplit⟩
      · cases h
  | filename =>
    obtain ⟨s₀, hlook, hs₀, -⟩ := looksAt_spec beyond buf contentTypePrefix s
      (Nat.le_add_right contentTypePrefix.length 2)
    rw [hlast] at h
    dsimp only at h
    rw [hlook] at h
    dsimp only at h
    split at h
    · next hfound =>
      obtain ⟨hlong, hpre⟩ := of_decide_eq_true hfound
      rw [hs₀] at h
      split at h
      · cases h
      · next k hfind =>
        have hs₁ : (s₀.read (s.i + (contentTypePrefix.length + 1)) (buf.length - s.i)).i
          = s.i := hs₀
        exact contentType_inv hcb hs₁ hpre hlong hfind h hi' ht hrest
    · cases h
  | contentType =>
    obtain ⟨s₀, hlook, hs₀, -⟩ := looksAt_spec beyond buf emptyLine s le_rfl
    rw [hlast] at h
    dsimp only at h
    rw [hlook] at h
    dsimp only at h
    split at h
    · next hfound =>
      obtain ⟨hts, hsplit⟩ := text_inv hcb (x := .emptyLine) hi hs₀ h
        (of_decide_eq_true hfound).2 ht hrest
      exact ⟨.emptyLine, .emptyType hts, hsplit⟩
    · cases h

omit hcb in
theorem consumeItem2_ne_finish (s : PdpState σ) (e : PostEt) (len : Int) (value : Nat)
    (vlen : Int) :
    consumeItem2 beyond buf cb s e len value vlen ≠ (.finish, s') := by
  unfold consumeItem2
  dsimp only
  split <;> exact fun h => nomatch h

omit hcb in
theorem andThen_ne_finish {r : PdpNext × PdpState σ} {f : PdpState σ → PdpNext × PdpState σ}
    (hr : ∀ s', r ≠ (.finish, s')) (hf : ∀ s s', f s ≠ (.finish, s')) :
    andThen r f ≠ (.finish, s') := by
  obtain ⟨n, s⟩ := r
  cases n with
  | next => exact hf s s'
  | finish => exact absurd rfl (hr s)
  | _ => exact fun h => nomatch h

omit hcb in
theorem pdpTurn_finish_inv {boundary : List UInt8} (hi : s.i ≤ buf.length)
    (h : pdpTurn beyond buf cb boundary s = (.finish, s')) :
    s.lastItemType = .boundary ∧ buf.drop s.i = finishMark := by
  have hitem : ∀ (s : PdpState σ) e len s', consumeItem beyond buf cb s e len ≠ (.finish, s') :=
    fun s e len s' => consumeItem2_ne_finish s e len s.i len
  have hpart : ∀ (s s' : PdpState σ), (PdpNext.ok, s) ≠ (.finish, s') := fun s s' h => nomatch h
  unfold pdpTurn at h
  cases hlast : s.lastItemType with
  | void =>
    rw [hlast] at h
    cases h
  | error =>
    rw [hlast] at h
    cases h
  | finish =>
    rw [hlast] at h
    cases h
  | emptyLine =>
    rw [hlast] at h
    dsimp only at h
    split at h
    · exact absurd h (andThen_ne_finish (hitem _ _ _) fun s => hitem s _ _)
    · exact absurd h (andThen_ne_finish (hitem _ _ _) hpart)
  | value =>
    rw [hlast] at h
    dsimp only at h
    split at h
    · exact absurd h (hitem _ _ _ _)
    · exact absurd h (andThen_ne_finish (hitem _ _ _) fun s => hitem s _ _)
    · exact absurd h (andThen_ne_finish (hitem _ _ _) hpart)
  | boundary =>
    obtain ⟨s₀, hlook, hs₀, -⟩ := looksAt_spec beyond buf contentDfd s le_rfl
    rw [hlast] at h
    dsimp only at h
    rw [hlook] at h
    dsimp only at h
    split at h
    · exact absurd h (hitem _ _ _ _)
    · split at h
      · next hfour =>
        obtain ⟨hlen, hread⟩ := hfour
        rw [hs₀] at hlen hread
        rw [← hlen, readBytes_rest beyond hi] at hread
        exact ⟨rfl, hread⟩
      · cases h
  | contentFormData =>
    rw [hlast] at h
    dsimp only at h
    split at h
    · split at h
      · cases h
      · exact absurd h (consumeItem2_ne_finish _ _ _ _ _)
    · cases h
  | name =>
    rw [hlast] at h
    dsimp only at h
    split at h
    · split at h
      · cases h
      · exact absurd h (consumeItem2_ne_finish _ _ _ _ _)
    · split at h
      · exact absurd h (hitem _ _ _ _)
      · cases h
  | filename =>
    rw [hlast] at h
    dsimp only at h
    split at h
    · split at h
      · cases h
      · exact absurd h (consumeItem2_ne_finish _ _ _ _ _)
    · cases h
  | contentType =>
    rw [hlast] at h
    dsimp only at h
    split at h
    · exact absurd h (hitem _ _ _ _)
    · cases h

/-- **終わりの印まで読めた残りは、token を並べたものである。** -/
theorem pdpLoop_tokens (hi : s.i ≤ buf.length) {fuel : Nat}
    (h : pdpLoop beyond buf cb (delimiter line) fuel s = some (.finish, s')) :
    ∃ ts, Tokens line s.lastItemType ts ∧ buf.drop s.i = renderTokens line ts := by
  induction fuel generalizing s with
  | zero =>
    unfold pdpLoop at h
    split at h <;> cases h
  | succ fuel ih =>
    unfold pdpLoop at h
    split at h
    · split at h
      · next s₁ hturn =>
        -- 読み進んだ先にも残りがある
        have hi₁ : s₁.i < buf.length := by
          by_contra hno
          rw [pdpLoop_end _ _ (Nat.le_of_not_lt hno)] at h
          cases h
        obtain ⟨ts, ht, hrest⟩ := ih hi₁.le h
        obtain ⟨x, hx⟩ := pdpTurn_next_inv hcb hturn hi hi₁ ht hrest
        exact ⟨x :: ts, hx⟩
      · obtain ⟨hlast, hrest⟩ := pdpTurn_finish_inv hi (Option.some.inj h)
        refine ⟨[.finish], hlast ▸ .finish, ?_⟩
        rw [hrest]
        rfl
    · cases h

/-! ## 終わりの印の他では、種類は `finish` にならない -/

omit hcb

theorem consumeItem2_last {e : PostEt} (he : e ≠ .finish) (hs : s.lastItemType ≠ .finish)
    (len : Int)
    (value : Nat) (vlen : Int) :
    (consumeItem2 beyond buf cb s e len value vlen).2.lastItemType ≠ .finish := by
  unfold consumeItem2
  dsimp only
  split
  · exact hs
  · exact he

theorem andThen_last {r : PdpNext × PdpState σ} {f : PdpState σ → PdpNext × PdpState σ}
    (hr : r.2.lastItemType ≠ .finish)
    (hf : ∀ s : PdpState σ, s.lastItemType ≠ .finish → (f s).2.lastItemType ≠ .finish) :
    (andThen r f).2.lastItemType ≠ .finish := by
  obtain ⟨n, s⟩ := r
  cases n with
  | next => exact hf s hr
  | _ => exact hr

theorem looksAt_last (s : PdpState σ) (least : Nat) (text : List UInt8) :
    (looksAt beyond buf s least text).2.lastItemType = s.lastItemType := by
  unfold looksAt
  split <;> rfl

theorem pdpTurn_last (beyond : Nat → UInt8) (buf : List UInt8) (cb : PostDataParserAppCb σ)
    (boundary : List UInt8) (hs : s.lastItemType ≠ .finish) :
    (pdpTurn beyond buf cb boundary s).2.lastItemType ≠ .finish := by
  have hitem : ∀ {s : PdpState σ} {e : PostEt} (len : Int), e ≠ .finish → s.lastItemType ≠ .finish →
      (consumeItem beyond buf cb s e len).2.lastItemType ≠ .finish :=
    fun len he hs => consumeItem2_last he hs len _ len
  have hvalue : ∀ len : Int, (consumeItem beyond buf cb (s.read s.i (buf.length - s.i)) .value
      len).2.lastItemType ≠ .finish :=
    fun len => hitem len (fun h => nomatch h) hs
  have hboundary : ∀ s : PdpState σ, s.lastItemType ≠ .finish →
      (consumeItem beyond buf cb s .boundary (boundary.length + 1)).2.lastItemType ≠ .finish :=
    fun s => hitem _ (fun h => nomatch h)
  have hlook : ∀ (s : PdpState σ) (least : Nat) (text : List UInt8), s.lastItemType ≠ .finish →
      (looksAt beyond buf s least text).2.lastItemType ≠ .finish := by
    intro s least text hs
    rwa [looksAt_last]
  unfold pdpTurn
  cases hlast : s.lastItemType with
  | void => exact hs
  | error => exact hs
  | finish => exact hs
  | emptyLine =>
    dsimp only
    split
    · exact andThen_last (hvalue _) hboundary
    · exact andThen_last (hvalue _) fun s hs => hs
  | value =>
    dsimp only
    split
    · exact hboundary _ hs
    · exact andThen_last (hvalue _) hboundary
    · exact andThen_last (hvalue _) fun s hs => hs
  | boundary =>
    dsimp only
    split
    · exact hitem _ (fun h => nomatch h) (hlook _ _ _ hs)
    · split
      · exact hlook _ _ _ hs
      · exact hlook _ _ _ hs
  | contentFormData =>
    dsimp only
    split
    · split
      · exact hlook _ _ _ hs
      · refine consumeItem2_last ?_ (hlook _ _ _ hs) _ _ _
        exact fun h => nomatch h
    · exact hlook _ _ _ hs
  | name =>
    dsimp only
    split
    · split
      · exact hlook _ _ _ hs
      · refine consumeItem2_last ?_ (hlook _ _ _ hs) _ _ _
        exact fun h => nomatch h
    · split
      · exact hitem _ (fun h => nomatch h) (hlook _ _ _ (hlook _ _ _ hs))
      · exact hlook _ _ _ (hlook _ _ _ hs)
  | filename =>
    dsimp only
    split
    · split
      · exact hlook _ _ _ hs
      · have hread : ∀ k n, ((looksAt beyond buf s (contentTypePrefix.length + 2)
            contentTypePrefix).2.read k n).lastItemType ≠ .finish := fun _ _ => hlook _ _ _ hs
        refine consumeItem2_last ?_ (hread _ _) _ _ _
        exact fun h => nomatch h
    · exact hlook _ _ _ hs
  | contentType =>
    dsimp only
    split
    · exact hitem _ (fun h => nomatch h) (hlook _ _ _ hs)
    · exact hlook _ _ _ hs

theorem pdpLoop_last {boundary : List UInt8} {fuel : Nat} {t : PdpNext × PdpState σ}
    (hs : s.lastItemType ≠ .finish) (h : pdpLoop beyond buf cb boundary fuel s = some t) :
    t.2.lastItemType ≠ .finish := by
  induction fuel generalizing s with
  | zero =>
    unfold pdpLoop at h
    split at h
    · cases h
    · rwa [← Option.some.inj h]
  | succ fuel ih =>
    have hturn := pdpTurn_last beyond buf cb boundary hs
    unfold pdpLoop at h
    split at h
    · split at h
      · next s₁ heq =>
        rw [heq] at hturn
        exact ih hturn h
      · rwa [← Option.some.inj h]
    · rwa [← Option.some.inj h]

end

/-! ## 終わりまで読める -/

def Accepted (body : List UInt8) : Prop :=
  ∃ r, postDataParser (fun _ => 0) body (fun (_ : Unit) _ _ => (0, ())) .init () = some r ∧
    r.ret = 0 ∧ r.ctx.lastItemType = .finish

theorem pdpLocateBoundary_inv {buf : List UInt8} (hlower : ¬pdpLocateBoundary buf ≤ 2)
    (hupper : ¬pdpBoundaryMax ≤ pdpLocateBoundary buf + 2) :
    ∃ line rest, buf = line ++ rest ∧ BoundaryLine line ∧ crlf <+: rest := by
  have hmax : pdpBoundaryMax = 256 := rfl
  unfold pdpLocateBoundary at hlower hupper
  dsimp only at hlower hupper
  generalize (if pdpBoundaryMax < buf.length then pdpBoundaryMax else buf.length)
    = max at hlower hupper
  cases hfind : memmem (buf.take max) crlf with
  | none =>
    rw [hfind] at hlower
    exact absurd (show (-1 : Int) ≤ 2 by decide) hlower
  | some k =>
    rw [hfind] at hlower hupper
    dsimp only at hlower hupper
    by_cases hneg : (buf.length : Int) ≤ (k : Int) - 1 ∨ (k : Int) - 1 ≤ 0
    · rw [if_pos hneg] at hlower
      exact absurd (show (-1 : Int) ≤ 2 by decide) hlower
    · rw [if_neg hneg] at hlower hupper
      obtain ⟨t, hsplit, hlen, hline⟩ := findInfix_split hfind
      refine ⟨(buf.take max).take k, (crlf ++ t) ++ buf.drop max, ?_, ⟨?_, ?_, hline⟩, ?_⟩
      · rw [← List.append_assoc, ← hsplit, List.take_append_drop]
      · omega
      · omega
      · rw [List.append_assoc]
        exact List.prefix_append _ _

theorem postDataParser_located {σ : Type*} {beyond : Nat → UInt8} {buf : List UInt8}
    {cb : PostDataParserAppCb σ} {app : σ} {r : PdpResult σ}
    (h : postDataParser beyond buf cb .init app = some r) (hret : r.ret = 0) :
    ∃ line rest, buf = line ++ rest ∧ BoundaryLine line ∧ crlf <+: rest := by
  by_cases hlocate : pdpLocateBoundary buf ≤ 2 ∨ pdpBoundaryMax ≤ pdpLocateBoundary buf + 2
  · -- 行を記録できなければ、-1 が返る
    have hvoid : PostDataCtx.init.lastItemType = .void := rfl
    unfold postDataParser at h
    rw [if_pos hvoid] at h
    dsimp only at h
    rw [if_pos hlocate] at h
    rw [← Option.some.inj h] at hret
    exact absurd hret (show ¬((-1 : Int) = 0) by decide)
  · exact pdpLocateBoundary_inv (fun h => hlocate (Or.inl h)) fun h => hlocate (Or.inr h)

/-- **終わりまで読める本体は、token を並べたものである。** -/
theorem exists_postBody {body : List UInt8} (h : Accepted body) :
    ∃ b : PostBody, b.render = body := by
  obtain ⟨r, hr, hret, hlast⟩ := h
  have hcb : ∀ (a : Unit) (e : PostEt) (b : List UInt8),
    ((0, ()) : Int × Unit).1 = 0 := fun _ _ _ => rfl
  obtain ⟨line, rest, rfl, hline, hrest⟩ := postDataParser_located hr hret
  obtain ⟨s, hs, hi, -, hstart⟩ := postDataParser_start (fun _ => 0) hcb hline hrest ()
  rw [hstart] at hr
  obtain ⟨t, hloop, rfl⟩ := Option.map_eq_some_iff.mp hr
  have hne := pdpLoop_last (hs ▸ (fun h => nomatch h)) hloop
  obtain ⟨n, s'⟩ := t
  cases n with
  | finish =>
    obtain ⟨ts, hts, hdrop⟩ := pdpLoop_tokens hcb (by
      rw [hi, List.length_append]
      exact Nat.le_add_right _ _) hloop
    rw [hi, List.drop_left] at hdrop
    exact ⟨⟨line, ts, hline, hs ▸ hts, hdrop ▸ hrest⟩, congrArg (line ++ ·) hdrop.symm⟩
  | next => exact absurd hlast hne
  | ok => exact absurd hlast hne
  | exx => exact absurd hret (show ¬((-1 : Int) = 0) by decide)
  | fail => exact absurd hret (show ¬((-1 : Int) = 0) by decide)

theorem PostBody.accepted (b : PostBody) : Accepted b.render := by
  let cb : PostDataParserAppCb Unit := fun _ _ _ => (0, ())
  obtain ⟨r, hr, hret, hlast, -⟩ := b.read (fun _ _ _ => rfl : ∀ a e b, (cb a e b).1 = 0)
    (fun _ => 0) ()
  exact ⟨r, hr, hret, hlast⟩

end Esq
