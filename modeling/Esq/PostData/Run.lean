import Esq.PostData.Turn

/-!
# 本体の初めを読む

buffer が本体の途中で切れていても、切れ目が token の間か値の中なら、`pdpLoop` はそこまでの要素を渡す。型の
直後は、次の改行を見ないと終わりが分からないので、切れ目にならない。
-/

namespace Esq

open Infra

/-- token の列 `ts` の `n` byte めで切ると、残りは `ts'` である。 -/
inductive Cut (line : List UInt8) : List PostToken → Nat → List PostToken → Prop where
  | here (ts : List PostToken) : Cut line ts 0 ts
  | value {v w : List UInt8} {last : UInt8} {ts : List PostToken} (hv : v ≠ []) :
      Cut line (.value (v ++ w) last :: ts) v.length (.value w last :: ts)
  | next {x : PostToken} {ts ts' : List PostToken} {n : Nat} (h : Cut line ts n ts')
      (hct : n = 0 → ∀ s, x ≠ .contentType s) :
      Cut line (x :: ts) ((x.render line).length + n) ts'

/-- 種類 `e` の次に token を読んで渡す要素。値を渡した後で値の残りが空なら、値は渡さない。 -/
def PostToken.emitted (line : List UInt8) (e : PostEt) (x : PostToken) : List PostElement :=
  match e, x with
  | .value, .value [] last => [⟨.boundary, delimiter line ++ [last]⟩]
  | _, x => x.elements line

/-- 種類 `e` の次の `n` byte を読むと、`es` を渡し、種類は `e'`、残りは `ts'` になる。 -/
inductive Emits (line : List UInt8) :
    PostEt → List PostToken → Nat → List PostElement → PostEt → List PostToken → Prop where
  | here (e : PostEt) (ts : List PostToken) : Emits line e ts 0 [] e ts
  | part (e : PostEt) {v w : List UInt8} {last : UInt8} {ts : List PostToken} (hv : v ≠ []) :
      Emits line e (.value (v ++ w) last :: ts) v.length [⟨.value, v⟩] .value (.value w last :: ts)
  | next (e : PostEt) {e' : PostEt} {x : PostToken} {ts ts' : List PostToken} {n : Nat}
      {es : List PostElement} (h : Emits line x.after ts n es e' ts')
      (hct : n = 0 → ∀ s, x ≠ .contentType s) :
      Emits line e (x :: ts) ((x.render line).length + n) (x.emitted line e ++ es) e' ts'

theorem Cut.emits {line : List UInt8} {ts ts' : List PostToken} {n : Nat} (h : Cut line ts n ts') :
    ∀ e, ∃ es e', Emits line e ts n es e' ts' := by
  induction h with
  | here ts => exact fun e => ⟨_, _, .here e ts⟩
  | value hv => exact fun e => ⟨_, _, .part e hv⟩
  | @next x ts ts' n h hct ih =>
    intro e
    obtain ⟨es, e', hemits⟩ := ih x.after
    exact ⟨_, _, .next e hemits hct⟩

section

variable {σ : Type*} {beyond : Nat → UInt8} {buf rest line : List UInt8}
  {cb : PostDataParserAppCb σ} {s : PdpState σ} {e e' : PostEt} {ts ts' : List PostToken}
  {x : PostToken} {n : Nat} {es : List PostElement}

def Ended (t : PdpNext × PdpState σ) (e : PostEt) : Prop :=
  (t.1 = .ok ∧ t.2.lastItemType = e) ∨ (t.1 = .finish ∧ e = .finish)

theorem pdpLoop_end (boundary : List UInt8) (fuel : Nat) (hi : buf.length ≤ s.i) :
    pdpLoop beyond buf cb boundary fuel s = some (.ok, s) := by
  unfold pdpLoop
  cases fuel with
  | zero => exact if_neg (by omega)
  | succ fuel => exact if_neg (by omega)

theorem pdpLoop_next {boundary : List UInt8} {fuel : Nat} {s' : PdpState σ} (hlt : s.i < buf.length)
    (hfuel : buf.length - s.i ≤ fuel) (hturn : pdpTurn beyond buf cb boundary s = (.next, s'))
    (hadvance : s.i < s'.i) :
    ∃ m, buf.length - s'.i ≤ m ∧
      pdpLoop beyond buf cb boundary fuel s = pdpLoop beyond buf cb boundary m s' := by
  cases fuel with
  | zero => omega
  | succ m =>
    refine ⟨m, by omega, ?_⟩
    rw [pdpLoop, if_pos hlt, hturn]

theorem pdpLoop_stop {boundary : List UInt8} {fuel : Nat} {t : PdpNext × PdpState σ}
    (hlt : s.i < buf.length) (hfuel : buf.length - s.i ≤ fuel)
    (hturn : pdpTurn beyond buf cb boundary s = t) (ht : t.1 ≠ .next) :
    pdpLoop beyond buf cb boundary fuel s = some t := by
  obtain ⟨r, s'⟩ := t
  cases fuel with
  | zero => omega
  | succ m =>
    rw [pdpLoop, if_pos hlt, hturn]
    cases r with
    | next => exact absurd rfl ht
    | _ => rfl

variable (hcb : ∀ a e b, (cb a e b).1 = 0) (hi : s.i ≤ buf.length)

include hcb hi

theorem pdpTurn_token (beyond : Nat → UInt8) (h : Tokens line s.lastItemType (x :: ts)) (hx : x ≠ .finish)
    (hrest : buf.drop s.i = x.render line ++ rest) (hct : ∀ v, x = .contentType v → crlf <+: rest) :
    ∃ s', pdpTurn beyond buf cb (delimiter line) s = (.next, s') ∧
      Consumed s s' x.after (x.render line).length (x.emitted line s.lastItemType) := by
  generalize hlast : s.lastItemType = e at h ⊢
  cases h with
  | finish => exact absurd rfl hx
  | formData => exact pdpTurn_formData hcb hi hlast hrest _
  | name hs => exact pdpTurn_name hcb hi hlast hs hrest _
  | filename hs => exact pdpTurn_filename hcb hi hlast hs hrest _
  | contentType hne hs =>
    obtain ⟨rest', rfl⟩ := hct _ rfl
    exact pdpTurn_contentType hcb hi hlast hne hs hrest _
  | emptyName => exact pdpTurn_emptyName hcb hi hlast hrest _
  | emptyType => exact pdpTurn_emptyType hcb hi hlast hrest _
  | value hs => exact pdpTurn_value hcb hi hlast hs hrest
  | @rest v _ _ hs =>
    have hturn := pdpTurn_rest hcb hi beyond hlast hs hrest
    cases v with
    | nil => exact hturn
    | cons c v => exact hturn

omit hcb hi

theorem crlf_prefix_of_emits (ht : Tokens line .contentType ts) (h : Emits line .contentType ts n es e' ts')
    (hn : n ≠ 0) : crlf <+: (renderTokens line ts).take n := by
  cases ht with
  | emptyType _ =>
    cases h with
    | here => exact absurd rfl hn
    | next =>
      rw [renderTokens_cons, List.take_length_add_append]
      exact ⟨_, rfl⟩

include hcb

theorem pdpLoop_emits (beyond : Nat → UInt8) (h : Emits line e ts n es e' ts') : ∀ {s : PdpState σ} {fuel : Nat},
    s.lastItemType = e → Tokens line e ts → s.i ≤ buf.length →
    buf.drop s.i = (renderTokens line ts).take n → buf.length - s.i ≤ fuel →
    ∃ t, pdpLoop beyond buf cb (delimiter line) fuel s = some t ∧
      elements t.2.events = elements s.events ++ es ∧ Tokens line e' ts' ∧ Ended t e' := by
  induction h with
  | here e ts =>
    intro s fuel hlast ht hi hrest hfuel
    rw [List.take_zero, List.drop_eq_nil_iff] at hrest
    exact ⟨(.ok, s), pdpLoop_end _ fuel hrest, (List.append_nil _).symm, ht, Or.inl ⟨rfl, hlast⟩⟩
  | @part e v w c ts hv =>
    intro s fuel hlast ht hi hrest hfuel
    have hvalue : Delimited line (v ++ w) ∧ Tokens line .boundary ts ∧ (e = .emptyLine ∨ e = .value) := by
      cases ht with
      | value hs ht => exact ⟨hs, ht, Or.inl rfl⟩
      | rest hs ht => exact ⟨hs, ht, Or.inr rfl⟩
    obtain ⟨hs, hts, he⟩ := hvalue
    rw [renderTokens_cons, PostToken.render, List.append_assoc, List.append_assoc, List.take_left] at hrest
    have hlt : s.i < buf.length := by
      by_contra hno
      exact hv (hrest ▸ List.drop_eq_nil_of_le (Nat.le_of_not_lt hno))
    obtain ⟨s', hturn, htook⟩ := pdpTurn_part hcb hi beyond (hlast ▸ he) (hrest ▸ hs.find_part)
    refine ⟨(.ok, s'), pdpLoop_stop hlt hfuel hturn (fun h => nomatch h), ?_, .rest hs.drop hts,
      Or.inl ⟨rfl, htook.last⟩⟩
    rw [htook.elements, hrest]
  | @next e e' x ts ts' n es h hct ih =>
    intro s fuel hlast ht hi hrest hfuel
    rw [renderTokens_cons, List.take_length_add_append] at hrest
    have hlen := congrArg List.length hrest
    rw [List.length_drop, List.length_append] at hlen
    have hpos : 0 < (x.render line).length := List.length_pos_iff.mpr (x.render_ne_nil line)
    have hlt : s.i < buf.length := by omega
    by_cases hx : x = .finish
    · -- 終わりの 4 byte で終わる
      subst hx
      cases ht
      cases h
      rw [renderTokens_nil, List.take_nil, List.append_nil] at hrest
      obtain ⟨s', hturn, hel⟩ := pdpTurn_finish hi beyond cb hlast hrest (delimiter line)
      exact ⟨(.finish, s'), pdpLoop_stop hlt hfuel hturn (fun h => nomatch h), hel, .nil, Or.inr ⟨rfl, rfl⟩⟩
    · have hts := ht.tail
      obtain ⟨s', hturn, htook⟩ := pdpTurn_token hcb hi beyond (hlast.symm ▸ ht) hx hrest
        (fun v hv => by
          subst hv
          exact crlf_prefix_of_emits hts h fun hn => hct hn v rfl)
      obtain ⟨m, hfuel', hloop⟩ := pdpLoop_next hlt hfuel hturn (by rw [htook.i]; omega)
      have hdrop : buf.drop s'.i = (renderTokens line ts).take n := by
        rw [htook.i]
        exact drop_add_of_drop hrest
      obtain ⟨t, ht', hel, htokens, hended⟩ := ih htook.last hts (by rw [htook.i]; omega) hdrop hfuel'
      refine ⟨t, hloop.trans ht', ?_, htokens, hended⟩
      rw [hel, htook.elements, hlast, List.append_assoc]

end

end Esq
