import Esq.PostData.Exact
import Esq.PostData.RoundTrip

/-!
# 値の後の区切り

値の終わりで探す列は、改行と、初めの行から最後の byte を除いたものである。最後の byte だけが違う列も
区切りと見なし、そこで値を切る。

* `post_boundary_exact_iff` — 区切りと見なすのが改行と初めの行全体だけで、値の byte がどれも渡されるのは、
  どの値でも、探す列が初めて現れる所に改行と初めの行全体があるときに限る
-/

namespace Esq

open Infra

section

variable {σ : Type} {beyond : Nat → UInt8} {buf line rest : List UInt8}
  {cb : PostDataParserAppCb σ} {s s' : PdpState σ} {p k : Nat} {e : PostEt}

/-! ## 初めの行 -/

def LineLocated (body : List UInt8) : Prop :=
  BoundaryLine (firstLine body) ∧ crlf <+: body.drop (firstLine body).length

theorem firstLine_eq (hline : BoundaryLine line) (hrest : crlf <+: rest) :
    firstLine (line ++ rest) = line := by
  unfold firstLine
  rw [hline.find hrest]
  exact List.take_left

theorem firstLine_append (body : List UInt8) :
    firstLine body ++ body.drop (firstLine body).length = body := by
  unfold firstLine
  cases hk : findInfix crlf body with
  | none => rw [List.drop_length, List.append_nil]
  | some k =>
    have hle := (findInfix_eq_some_iff.mp hk).1
    dsimp only
    rw [List.length_take, Nat.min_eq_left hle, List.take_append_drop]

theorem lineLocated_iff {body : List UInt8} :
    LineLocated body ↔
      ¬ (pdpLocateBoundary body ≤ 2 ∨ pdpBoundaryMax ≤ pdpLocateBoundary body + 2) := by
  constructor
  · rintro ⟨hline, hrest⟩
    have hloc := pdpLocateBoundary_eq hline hrest
    rw [firstLine_append] at hloc
    have hmax : pdpBoundaryMax = 256 := rfl
    have hlower := hline.lower
    have hupper := hline.upper
    omega
  · intro h
    obtain ⟨hlower, hupper⟩ := not_or.mp h
    obtain ⟨line, rest, rfl, hline, hrest⟩ := pdpLocateBoundary_inv hlower hupper
    unfold LineLocated
    rw [firstLine_eq hline hrest, List.drop_left]
    exact ⟨hline, hrest⟩

theorem firstLine_le (body : List UInt8) : (firstLine body).length ≤ body.length := by
  have := congrArg List.length (firstLine_append body)
  rw [List.length_append] at this
  omega

theorem readBytes_firstLine (beyond : Nat → UInt8) (body : List UInt8) {n : Nat}
    (hn : n ≤ (firstLine body).length) : readBytes beyond body 0 n = (firstLine body).take n := by
  rw [readBytes_inside beyond (by have := firstLine_le body; omega), List.drop_zero]
  conv_lhs => rw [← firstLine_append body]
  exact List.take_append_of_le_length hn

theorem postDataParser_void (beyond : Nat → UInt8) (buf : List UInt8) (cb : PostDataParserAppCb σ)
    {ctx : PostDataCtx} (hvoid : ctx.lastItemType = .void) (hloc : LineLocated buf) (app : σ) :
    postDataParser beyond buf cb ctx app
      = match consumeItem2 beyond buf cb ⟨.void, 0, app, [.read 0 (min pdpBoundaryMax buf.length)]⟩
            .boundary (((firstLine buf).length - 1 : Nat) + 1) 0
            (((firstLine buf).length - 1 : Nat) + 1) with
        | (.next, s) => (pdpLoop beyond buf cb (delimiter (firstLine buf)) buf.length s).map
            (pdpReturn cb { ctx with boundary := delimiter (firstLine buf) })
        | t => some (pdpReturn cb { ctx with boundary := delimiter (firstLine buf) } t) := by
  have hstart := lineLocated_iff.mp hloc
  obtain ⟨hline, hrest⟩ := hloc
  have hloc := pdpLocateBoundary_eq hline hrest
  rw [firstLine_append] at hloc
  have hrecord : readBytes beyond buf 0 ((firstLine buf).length - 1)
      = (firstLine buf).dropLast := by
    rw [readBytes_firstLine beyond buf (Nat.sub_le _ _), List.dropLast_eq_take]
  unfold postDataParser
  rw [if_pos hvoid]
  dsimp only
  rw [if_neg hstart, hloc, Int.toNat_natCast, hrecord]
  rfl

theorem postDataParser_calls (beyond : Nat → UInt8) (buf : List UInt8) (cb : PostDataParserAppCb σ)
    (hloc : LineLocated buf) (app : σ) :
    ∃ s : PdpState σ, postCalls s.events = [⟨.boundary, some 0, firstLine buf⟩] ∧
      (postDataParser beyond buf cb .init app
          = some (pdpReturn cb ⟨.void, delimiter (firstLine buf)⟩ (.fail, s)) ∧
          (cb app .boundary (firstLine buf)).1 ≠ 0 ∨
        s.lastItemType = .boundary ∧ s.i = (firstLine buf).length ∧
          postDataParser beyond buf cb .init app
            = (pdpLoop beyond buf cb (delimiter (firstLine buf)) buf.length s).map
                (pdpReturn cb ⟨.void, delimiter (firstLine buf)⟩)) := by
  have hlower := hloc.1.lower
  have hcall := consumeItem2_call beyond buf cb
    (PdpState.mk PostEt.void 0 app [.read 0 (min pdpBoundaryMax buf.length)]) .boundary 0
    (show (((firstLine buf).length - 1 : Nat) : Int) + 1 = ((firstLine buf).length : Nat) by omega)
    (show (((firstLine buf).length - 1 : Nat) : Int) + 1 = ((firstLine buf).length : Nat) by omega)
  rw [readBytes_firstLine beyond buf le_rfl, List.take_length] at hcall
  rw [postDataParser_void beyond buf cb (show PostDataCtx.init.lastItemType = .void from rfl) hloc]
  have hcalls := hcall.calls
  by_cases h0 : (cb app .boundary (firstLine buf)).1 = 0
  · obtain ⟨hn, hlast, hi⟩ := hcall.next h0
    generalize consumeItem2 beyond buf cb _ PostEt.boundary _ _ _ = r at hn hlast hi hcalls ⊢
    obtain ⟨n, s⟩ := r
    cases hn
    exact ⟨s, hcalls, .inr ⟨hlast, by rw [hi, Nat.zero_add], rfl⟩⟩
  · have hn := hcall.fail h0
    generalize consumeItem2 beyond buf cb _ PostEt.boundary _ _ _ = r at hn hcalls ⊢
    obtain ⟨n, s⟩ := r
    cases hn
    exact ⟨s, hcalls, .inl ⟨rfl, h0⟩⟩

/-! ## 読む所 -/

def Reaches (beyond : Nat → UInt8) (buf : List UInt8) (cb : PostDataParserAppCb σ)
    (o : Option (PdpNext × PdpState σ)) (e : PostEt) (p : Nat) : Prop :=
  ∃ (s : PdpState σ) (fuel : Nat), s.lastItemType = e ∧ s.i = p ∧ buf.length - p ≤ fuel ∧
    o = pdpLoop beyond buf cb (delimiter (firstLine buf)) fuel s

variable {o : Option (PdpNext × PdpState σ)}

theorem PartsTo.four_le (h : PartsTo line buf .emptyLine p) : 4 ≤ p := by
  cases h with
  | emptyName _ _ => exact Nat.le_add_left 4 _
  | emptyType _ _ => exact Nat.le_add_left 4 _

theorem Reaches.step {n : Nat} {e' : PostEt} (hn : 0 < n) (hp : p < buf.length)
    (h : Reaches beyond buf cb o e p)
    (hturn : ∀ s : PdpState σ, s.lastItemType = e → s.i = p →
      ∃ s' es, pdpTurn beyond buf cb (delimiter (firstLine buf)) s = (.next, s') ∧
        Consumed s s' e' n es) : Reaches beyond buf cb o e' (p + n) := by
  obtain ⟨s, fuel, hlast, rfl, hfuel, ho⟩ := h
  obtain ⟨s', es, hs', htook⟩ := hturn s hlast rfl
  obtain ⟨m, hm, hloop⟩ := pdpLoop_next hp hfuel hs' (by rw [htook.i]; omega)
  exact ⟨s', m, htook.last, htook.i, htook.i ▸ hm, ho.trans hloop⟩

theorem lt_of_drop_prefix {q : Nat} {text : List UInt8} (htext : text ≠ [])
    (hpre : text <+: buf.drop q) : q < buf.length := by
  by_contra hge
  rw [List.drop_eq_nil_of_le (Nat.le_of_not_lt hge)] at hpre
  exact htext (List.prefix_nil.mp hpre)

theorem Reaches.text {text : List UInt8} {e' : PostEt} (htext : 0 < text.length)
    (h : Reaches beyond buf cb o e p) (hp : text <+: buf.drop p)
    (hturn : ∀ (s : PdpState σ) rest, s.i ≤ buf.length → s.lastItemType = e →
      buf.drop s.i = text ++ rest →
      ∃ s', pdpTurn beyond buf cb (delimiter (firstLine buf)) s = (.next, s') ∧
        Consumed s s' e' text.length [⟨e', text⟩]) :
    Reaches beyond buf cb o e' (p + text.length) := by
  have hlt := lt_of_drop_prefix (List.ne_nil_of_length_pos htext) hp
  obtain ⟨rest, hrest⟩ := hp
  refine h.step htext hlt fun s hlast hi => ?_
  subst hi
  exact (hturn s rest hlt.le hlast hrest.symm).imp fun _ h => ⟨_, h⟩

theorem Reaches.quoted {text v rest : List UInt8} {e' : PostEt} (htext : text ≠ [])
    (h : Reaches beyond buf cb o e p) (hp : buf.drop p = text ++ (v ++ 34 :: rest))
    (hturn : ∀ s : PdpState σ, s.i ≤ buf.length → s.lastItemType = e →
      buf.drop s.i = text ++ (v ++ [34]) ++ rest →
      ∃ s', pdpTurn beyond buf cb (delimiter (firstLine buf)) s = (.next, s') ∧
        Consumed s s' e' (text ++ (v ++ [34])).length [⟨e', v⟩]) :
    Reaches beyond buf cb o e' (p + text.length + v.length + 1) := by
  have hlt := lt_of_drop_prefix htext ⟨_, hp.symm⟩
  have hlen : (text ++ (v ++ [34])).length = text.length + v.length + 1 := by
    rw [List.length_append, List.length_append, List.length_singleton, Nat.add_assoc]
  rw [show p + text.length + v.length + 1 = p + (text ++ (v ++ [34])).length by omega]
  refine h.step (by omega) hlt fun s hlast hi => ?_
  subst hi
  exact (hturn s hlt.le hlast (by simpa using hp)).imp fun _ h => ⟨_, h⟩

variable (hcb : ∀ a e b, (cb a e b).1 = 0)

include hcb

theorem Reaches.found (hne : firstLine buf ≠ []) (h : Reaches beyond buf cb o .emptyLine p)
    (hk : findInfix (delimiter (firstLine buf)) (buf.drop p) = some k) :
    (∃ t bytes, o = some t ∧ ⟨.boundary, some (p + k), bytes⟩ ∈ finalCalls t) ∧
      Reaches beyond buf cb o .boundary (p + k + ((delimiter (firstLine buf)).length + 1)) := by
  have hp : p < buf.length := by
    by_contra hge
    rw [List.drop_eq_nil_of_le (Nat.le_of_not_lt hge)] at hk
    exact absurd (List.prefix_nil.mp (List.drop_nil ▸ (findInfix_eq_some_iff.mp hk).2.1))
      (delimiter_ne_nil _)
  obtain ⟨s, fuel, hlast, rfl, hfuel, ho⟩ := h
  have hturn : ValueTurn cb (firstLine buf) buf s
      (pdpTurn beyond buf cb (delimiter (firstLine buf)) s) := pdpTurn_valueTurn hp hlast
  generalize hr : pdpTurn beyond buf cb (delimiter (firstLine buf)) s = r at hturn
  cases hturn with
  | rest hk' =>
    rw [hk] at hk'
    cases hk'
  | refused hk' hr' a ha => exact absurd (hcb _ _ _) ha
  | @found k' bytes hk' hr' hcalls =>
    obtain rfl : k = k' := Option.some.inj (hk.symm.trans hk')
    rcases hr' with ⟨-, a, ha⟩ | ⟨hn, hl, hi⟩
    · exact absurd (hcb _ _ _) ha
    · obtain ⟨n, s'⟩ := r
      cases hn
      have hl : s'.lastItemType = .boundary := hl
      have hi : s'.i = s.i + k + ((delimiter (firstLine buf)).length + 1) := hi
      obtain ⟨m, hm, hloop⟩ := pdpLoop_next hp hfuel hr (by omega)
      have hgood : LoopGood buf cb s' (pdpLoop beyond buf cb (delimiter (firstLine buf)) m s') :=
        pdpLoop_calls hne m (by rw [hl]; exact nofun) hm
      obtain ⟨t, cs, ht, hcs, -⟩ := hgood
      refine ⟨⟨t, bytes, (ho.trans hloop).trans ht, ?_⟩, s', m, hl, hi, hi ▸ hm, ho.trans hloop⟩
      rw [hcs, hcalls]
      simp

/-- **区切りと見なすのが改行と行全体だけなら、part の並びの通りに進む。** -/
theorem PartsTo.reaches (hne : firstLine buf ≠ [])
    (hstart : Reaches beyond buf cb o .boundary (firstLine buf).length)
    (hfull : ∀ t, o = some t → ∀ c ∈ finalCalls t, c.etype = .boundary → c.ptr ≠ some 0 →
      ∃ p, c.ptr = some p ∧ crlf ++ firstLine buf <+: buf.drop p)
    (h : PartsTo (firstLine buf) buf e p) : Reaches beyond buf cb o e p := by
  induction h with
  | start => exact hstart
  | formData _ hp ih =>
    exact ih.text (by decide) hp fun _ _ hi hlast hrest => pdpTurn_formData hcb hi hlast hrest _
  | name _ hp hv ih =>
    exact ih.quoted (by decide) hp fun _ hi hlast hrest => pdpTurn_name hcb hi hlast hv hrest _
  | filename _ hp hv ih =>
    exact ih.quoted (by decide) hp fun _ hi hlast hrest =>
      pdpTurn_filename hcb hi hlast hv hrest _
  | @contentType q k _ hp hlong hk ih =>
    have hq := lt_of_drop_prefix (by decide) hp
    obtain ⟨tail, hsplit⟩ := hp
    obtain ⟨c, tail, rfl⟩ : ∃ c tail', tail = c :: tail' := by
      refine List.exists_cons_of_length_pos ?_
      have hlen := congrArg List.length hsplit
      rw [List.length_append, List.length_drop] at hlen
      omega
    have htail : buf.drop (q + (contentTypePrefix.length + 1)) = tail := by
      rw [← Nat.add_assoc, ← List.drop_drop, drop_add_of_drop hsplit.symm]
      rfl
    rw [htail] at hk
    obtain ⟨t, htake, hlenk, hfirst⟩ := findInfix_split hk
    have hlen : (contentTypePrefix ++ c :: tail.take k).length
        = contentTypePrefix.length + 1 + k := by
      rw [List.length_append, List.length_cons, hlenk]
      omega
    rw [show q + (contentTypePrefix.length + 1) + k
      = q + (contentTypePrefix ++ c :: tail.take k).length by omega]
    refine ih.step (by omega) hq fun s hlast hi => ?_
    subst hi
    have hdrop : buf.drop s.i = contentTypePrefix ++ c :: tail.take k ++ (crlf ++ t) := by
      rw [← hsplit, List.append_assoc, List.cons_append, ← htake]
    exact (pdpTurn_contentType hcb hq.le hlast (List.cons_ne_nil _ _) hfirst hdrop _).imp
      fun _ h => ⟨_, h⟩
  | emptyName _ hp ih =>
    exact ih.text (by decide) hp fun _ _ hi hlast hrest => pdpTurn_emptyName hcb hi hlast hrest _
  | emptyType _ hp ih =>
    exact ih.text (by decide) hp fun _ _ hi hlast hrest => pdpTurn_emptyType hcb hi hlast hrest _
  | @value q k hq hk ih =>
    have hq4 := hq.four_le
    have hsub : delimiter (firstLine buf) <+: crlf ++ firstLine buf := by
      rw [← delimiter_append hne]
      exact List.prefix_append _ _
    obtain ⟨-, hat, hfirst⟩ := findInfix_eq_some_iff.mp hk
    cases hk' : findInfix (delimiter (firstLine buf)) (buf.drop q) with
    | none => exact absurd (hsub.trans hat) ((findInfix_eq_none_iff (delimiter_ne_nil _)).mp hk' k)
    | some k' =>
      obtain ⟨-, -, hfirst'⟩ := findInfix_eq_some_iff.mp hk'
      obtain ⟨⟨t, bytes, ht, hmem⟩, hreach⟩ := ih.found hcb hne hk'
      obtain ⟨p, hptr, hpre⟩ := hfull t ht _ hmem rfl (by simp; omega)
      obtain rfl : q + k' = p := Option.some.inj hptr
      rw [← List.drop_drop] at hpre
      have hle : ¬ k' < k := fun hlt => hfirst k' hlt hpre
      have hge : ¬ k < k' := fun hlt => hfirst' k hlt (hsub.trans hat)
      obtain rfl : k' = k := by omega
      rw [← delimiter_append hne, List.length_append, List.length_singleton]
      exact hreach

end

/-! ## 値の後の区切り -/

theorem PostGood.exact {σ : Type} {cb : PostDataParserAppCb σ} {body line : List UInt8}
    {cs : List PostCall} (h : PostGood cb body cs) :
    PostExact cb body (⟨.boundary, some 0, line⟩ :: cs) where
  boundary c hc he hptr := by
    rcases List.mem_cons.mp hc with rfl | hc
    · exact absurd rfl hptr
    · exact h.boundary c hc he
  value pre q bytes post hcs hne := by
    cases pre with
    | nil => cases (List.cons.inj hcs).1
    | cons c pre => exact h.value pre q bytes post (List.cons.inj hcs).2 hne

theorem wholeBoundaries_of_exact {body : List UInt8} (hloc : LineLocated body)
    (h : ∃ r, postDataParser (fun _ => 0) body (fun (_ : Unit) _ _ => (0, ())) .init () = some r ∧
      PostExact (fun (_ : Unit) _ _ => (0, ())) body (postCalls r.events)) :
    WholeBoundaries (firstLine body) body := by
  have hne := hloc.1.ne_nil
  have hcb : ∀ (a : Unit) (e : PostEt) (b : List UInt8), ((0, ()) : Int × Unit).1 = 0 :=
    fun _ _ _ => rfl
  obtain ⟨s, -, ⟨-, hno⟩ | ⟨hlast, hi, hrun⟩⟩ :=
    postDataParser_calls (fun _ => 0) body (fun (_ : Unit) _ _ => (0, ())) hloc ()
  · exact absurd rfl hno
  obtain ⟨r, hr, hexact⟩ := h
  rw [hrun] at hr
  obtain ⟨t, ht, rfl⟩ := Option.map_eq_some_iff.mp hr
  rw [postCalls_return] at hexact
  have hfull : ∀ t', some t = some t' → ∀ c ∈ finalCalls t', c.etype = .boundary →
      c.ptr ≠ some 0 → ∃ p, c.ptr = some p ∧ crlf ++ firstLine body <+: body.drop p := by
    rintro t' ht'
    obtain rfl := Option.some.inj ht'
    exact hexact.boundary
  intro p k hparts hk
  have hstart : Reaches (fun _ => 0) body (fun (_ : Unit) _ _ => (0, ())) (some t) .boundary
      (firstLine body).length := ⟨s, body.length, hlast, hi, Nat.sub_le _ _, ht.symm⟩
  have hreach := hparts.reaches hcb hne hstart hfull
  obtain ⟨⟨t', bytes, ht', hmem⟩, -⟩ := hreach.found hcb hne hk
  have hp := hparts.four_le
  obtain ⟨q, hq, hpre⟩ := hfull t' ht' _ hmem rfl (by simp; omega)
  obtain rfl : p + k = q := Option.some.inj hq
  exact hpre

/--
**区切りと見なすのが改行と初めの行全体だけで、空行の後の byte がどれも値として渡されるのは、どの値でも、
探す列が初めて現れる所に改行と初めの行全体があるときに限る。** callback は、いつ断ってもよい。
-/
theorem post_boundary_exact_iff (body : List UInt8) :
    (∀ (σ : Type) (beyond : Nat → UInt8) (cb : PostDataParserAppCb σ) (app : σ),
      ∃ r, postDataParser beyond body cb .init app = some r ∧
        PostExact cb body (postCalls r.events)) ↔
    (LineLocated body → WholeBoundaries (firstLine body) body) := by
  constructor
  · intro h hloc
    exact wholeBoundaries_of_exact hloc (h Unit (fun _ => 0) (fun _ _ _ => (0, ())) ())
  · intro hw σ beyond cb app
    by_cases hloc : LineLocated body
    · have hne := hloc.1.ne_nil
      obtain ⟨s, hcalls, ⟨hrun, -⟩ | ⟨hlast, hi, hrun⟩⟩ := postDataParser_calls beyond body cb hloc
        app
      · refine ⟨_, hrun, ?_⟩
        rw [postCalls_return]
        unfold finalCalls
        rw [hcalls]
        exact PostGood.exact (.of_forall fun c hc => by cases hc)
      · have hgood : LoopGood body cb s
            (pdpLoop beyond body cb (delimiter (firstLine body)) body.length s) :=
          pdpLoop_calls hne body.length (by rw [hlast]; exact nofun) (Nat.sub_le _ _)
        obtain ⟨t, cs, ht, hcs, hgood⟩ := hgood
        rw [ht] at hrun
        refine ⟨_, hrun, ?_⟩
        rw [postCalls_return, hcs, hcalls]
        have hready : LoopReady body s := fun _ => .inl (by rw [hlast, hi]; exact .start)
        exact (hgood (hw hloc) hready).1.exact
    · have hvoid : PostDataCtx.init.lastItemType = .void := rfl
      unfold postDataParser
      rw [if_pos hvoid]
      dsimp only
      rw [if_pos (not_not.mp (mt lineLocated_iff.mpr hloc))]
      refine ⟨_, rfl, ⟨fun c hc => (nomatch hc), fun pre q bytes post hcs => ?_⟩⟩
      have hnil : ([] : List PostCall) = pre ++ ⟨.emptyLine, some q, bytes⟩ :: post := hcs
      exact absurd hnil.symm (by simp)

/-- 区切りの行 `--ab` の本体。値 `x` の後に `--ac` がある。 -/
def nearMatchBody : List UInt8 :=
  [45, 45, 97, 98] ++ contentDfd ++ nameS ++ [110, 34] ++ emptyLine ++
    [120, 13, 10, 45, 45, 97, 99, 121] ++ [13, 10, 45, 45, 97, 98] ++ finishMark

/-- 最後の byte だけが違う `--ac` を区切りと見なし、続く byte を渡さない。 -/
theorem near_match_cuts_value : ¬ ∀ (σ : Type) (beyond : Nat → UInt8) (cb : PostDataParserAppCb σ)
    (app : σ), ∃ r, postDataParser beyond nearMatchBody cb .init app = some r ∧
      PostExact cb nearMatchBody (postCalls r.events) := by
  intro h
  have hline : firstLine nearMatchBody = [45, 45, 97, 98] := by
    decide +kernel
  have hloc : LineLocated nearMatchBody := by
    unfold LineLocated
    rw [hline]
    exact ⟨⟨by decide, by decide, by decide⟩, by decide⟩
  have hw := wholeBoundaries_of_exact hloc (h Unit (fun _ => 0) (fun _ _ _ => (0, ())) ())
  rw [hline] at hw
  have hname : PartsTo [45, 45, 97, 98] nearMatchBody .name _ :=
    .name (v := [110]) (.formData .start (by decide)) rfl (by decide)
  exact absurd (hw _ 1 (.emptyName hname (by decide)) (by decide)) (by decide)

end Esq
