import Esq.PostData.Accept

/-!
# 渡した区切りと値

callback がいつ断ってもよいとして、`post_data_parser` の呼び出しの並びを調べる。

* `PartsTo` — 本体を前から読んだときの、part の並び
* `PostExact` — 区切りと見なした所に改行と初めの行全体があり、空行の後の byte はどれも値として渡す
* `pdpLoop_calls` — どの値でも、探す列が初めて現れる所に改行と初めの行全体があれば、loop はそう呼び出す
-/

namespace Esq

open Infra

/-! ## callback の呼び出し -/

structure PostCall where
  etype : PostEt
  ptr : Option Nat
  bytes : List UInt8

def PdpEvent.call? : PdpEvent → Option PostCall
  | .call etype ptr _ bytes => some ⟨etype, ptr, bytes⟩
  | .read _ _ => none

def postCalls (events : List PdpEvent) : List PostCall := events.filterMap PdpEvent.call?

def firstLine (body : List UInt8) : List UInt8 :=
  match findInfix crlf body with
  | some k => body.take k
  | none => body

/-- `p` から、次に改行と初めの行全体が現れる所まで。 -/
def untilBoundary (body : List UInt8) (p : Nat) : List UInt8 :=
  match findInfix (crlf ++ firstLine body) (body.drop p) with
  | some k => (body.drop p).take k
  | none => body.drop p

/-- 区切りと見なした所に改行と初めの行全体があり、空行の後の byte はどれも値として渡す。 -/
structure PostExact {σ : Type} (cb : PostDataParserAppCb σ) (body : List UInt8)
    (cs : List PostCall) : Prop where
  boundary : ∀ c ∈ cs, c.etype = .boundary → c.ptr ≠ some 0 →
    ∃ p, c.ptr = some p ∧ crlf ++ firstLine body <+: body.drop p
  /-- callback が空行で止めなければ、続く値は次の区切りまでである -/
  value : ∀ pre q bytes post, cs = pre ++ ⟨.emptyLine, some q, bytes⟩ :: post →
    body.drop (q + 4) ≠ [] → (post = [] ∧ ∃ a, (cb a .emptyLine bytes).1 ≠ 0) ∨
      ∃ post', post = ⟨.value, some (q + 4), untilBoundary body (q + 4)⟩ :: post'

section

variable {line body : List UInt8}

/-- 行 `line` の後、`p` までが part の並びである。`e` は最後に読んだものの種類を表す。 -/
inductive PartsTo (line body : List UInt8) : PostEt → Nat → Prop where
  | start : PartsTo line body .boundary line.length
  | formData {p : Nat} (h : PartsTo line body .boundary p) (hp : contentDfd <+: body.drop p) :
      PartsTo line body .contentFormData (p + contentDfd.length)
  | name {p : Nat} {v rest : List UInt8} (h : PartsTo line body .contentFormData p)
      (hp : body.drop p = nameS ++ (v ++ 34 :: rest)) (hv : 34 ∉ v) :
      PartsTo line body .name (p + nameS.length + v.length + 1)
  | filename {p : Nat} {v rest : List UInt8} (h : PartsTo line body .name p)
      (hp : body.drop p = fnameS ++ (v ++ 34 :: rest)) (hv : 34 ∉ v) :
      PartsTo line body .filename (p + fnameS.length + v.length + 1)
  | contentType {p k : Nat} (h : PartsTo line body .filename p)
      (hp : contentTypePrefix <+: body.drop p) (hlong : contentTypePrefix.length + 2 ≤ body.length - p)
      (hk : findInfix crlf (body.drop (p + (contentTypePrefix.length + 1))) = some k) :
      PartsTo line body .contentType (p + (contentTypePrefix.length + 1) + k)
  | emptyName {p : Nat} (h : PartsTo line body .name p) (hp : emptyLine <+: body.drop p) :
      PartsTo line body .emptyLine (p + emptyLine.length)
  | emptyType {p : Nat} (h : PartsTo line body .contentType p) (hp : emptyLine <+: body.drop p) :
      PartsTo line body .emptyLine (p + emptyLine.length)
  | value {p k : Nat} (h : PartsTo line body .emptyLine p)
      (hk : findInfix (crlf ++ line) (body.drop p) = some k) :
      PartsTo line body .boundary (p + k + (crlf ++ line).length)

/-- どの値でも、探す列が初めて現れる所に、改行と行全体がある。 -/
def WholeBoundaries (line body : List UInt8) : Prop :=
  ∀ p k, PartsTo line body .emptyLine p → findInfix (delimiter line) (body.drop p) = some k →
    crlf ++ line <+: body.drop (p + k)

end

@[simp] theorem postCalls_append (es fs : List PdpEvent) :
    postCalls (es ++ fs) = postCalls es ++ postCalls fs :=
  List.filterMap_append

/-! ## 一回りの呼び出し -/

section

variable {σ : Type} {beyond : Nat → UInt8} {buf line : List UInt8}
  {cb : PostDataParserAppCb σ} {s s' : PdpState σ} {k n : Nat}

@[simp] theorem postCalls_read (s : PdpState σ) (k n : Nat) :
    postCalls (s.read k n).events = postCalls s.events := by
  simp [PdpState.read, postCalls, PdpEvent.call?]

/-- callback が断れば止まり、断らなければ進む。 -/
structure CallTurn (cb : PostDataParserAppCb σ) (s : PdpState σ) (c : PostCall) (len : Nat)
    (r : PdpNext × PdpState σ) : Prop where
  calls : postCalls r.2.events = postCalls s.events ++ [c]
  next : (cb s.app c.etype c.bytes).1 = 0 →
    r.1 = .next ∧ r.2.lastItemType = c.etype ∧ r.2.i = s.i + len
  fail : (cb s.app c.etype c.bytes).1 ≠ 0 → r.1 = .fail

theorem consumeItem2_call (beyond : Nat → UInt8) (buf : List UInt8) (cb : PostDataParserAppCb σ)
    (s : PdpState σ) (e : PostEt) {len vlen : Int} (value : Nat) {m : Nat} (hlen : len = n)
    (hvlen : vlen = m) :
    CallTurn cb s ⟨e, some value, readBytes beyond buf value m⟩ n
      (consumeItem2 beyond buf cb s e len value vlen) := by
  subst hlen hvlen
  unfold consumeItem2 PdpState.call
  dsimp only [Int.toNat_natCast]
  by_cases h : (cb s.app e (readBytes beyond buf value m)).1 = 0
  · rw [if_neg (not_not.mpr h)]
    refine ⟨by simp [postCalls, PdpEvent.call?], fun _ => ⟨rfl, rfl, ?_⟩, fun hne => absurd h hne⟩
    dsimp only
    omega
  · rw [if_pos h]
    exact ⟨by simp [postCalls, PdpEvent.call?], fun h0 => absurd h0 h, fun _ => rfl⟩

theorem looksAt_calls (beyond : Nat → UInt8) (buf text : List UInt8) (s : PdpState σ) {least : Nat}
    (hleast : text.length ≤ least) :
    ∃ s₀, looksAt beyond buf s least text
        = (decide (least ≤ buf.length - s.i ∧ text <+: buf.drop s.i), s₀) ∧
      s₀.i = s.i ∧ postCalls s₀.events = postCalls s.events := by
  obtain ⟨s₀, hlook, hi, -⟩ := looksAt_spec beyond buf text s hleast
  refine ⟨s₀, hlook, hi, ?_⟩
  have hsnd : (looksAt beyond buf s least text).2 = s₀ := congrArg Prod.snd hlook
  rw [← hsnd]
  unfold looksAt
  split
  · exact postCalls_read _ _ _
  · rfl

structure HeaderTurn (cb : PostDataParserAppCb σ) (line buf : List UInt8) (s : PdpState σ)
    (r : PdpNext × PdpState σ) (cs : List PostCall) : Prop where
  calls : postCalls r.2.events = postCalls s.events ++ cs
  boundary : ∀ c ∈ cs, c.etype ≠ .boundary
  /-- 空行を渡したら、続けるか、断られている -/
  empty : ∀ c ∈ cs, c.etype = .emptyLine → cs = [c] ∧ c.ptr = some s.i ∧
    (r.1 = .next ∧ r.2.lastItemType = .emptyLine ∧ r.2.i = s.i + 4 ∨
      r.1 = .fail ∧ ∃ a, (cb a .emptyLine c.bytes).1 ≠ 0)
  next : r.1 = .next → s.i < r.2.i ∧ r.2.lastItemType ≠ .value ∧
    (s.lastItemType = .contentType → s.i + 4 ≤ buf.length) ∧
    (PartsTo line buf s.lastItemType s.i → r.2.i < buf.length →
      PartsTo line buf r.2.lastItemType r.2.i ∨
        r.2.lastItemType = .contentType ∧ buf.length < r.2.i + 4)

namespace HeaderTurn

theorem stop {s₀ : PdpState σ} {t : PdpNext} (ht : t ≠ .next)
    (hcalls : postCalls s₀.events = postCalls s.events) : HeaderTurn cb line buf s (t, s₀) [] where
  calls := by rw [hcalls, List.append_nil]
  boundary _ hc := (nomatch hc)
  empty _ hc := (nomatch hc)
  next h := absurd h ht

theorem of_call {s₀ : PdpState σ} {c : PostCall} {r : PdpNext × PdpState σ}
    (h : CallTurn cb s₀ c n r) (hcalls : postCalls s₀.events = postCalls s.events) (hi : s₀.i = s.i)
    (hn : 0 < n) (hc : c.etype ≠ .boundary ∧ c.etype ≠ .value)
    (hempty : c.etype = .emptyLine → c.ptr = some s.i ∧ n = 4)
    (hlong : s.lastItemType = .contentType → s.i + 4 ≤ buf.length)
    (hparts : PartsTo line buf s.lastItemType s.i → s.i + n < buf.length →
      PartsTo line buf c.etype (s.i + n) ∨ c.etype = .contentType ∧ buf.length < s.i + n + 4) :
    HeaderTurn cb line buf s r [c] where
  calls := by rw [h.calls, hcalls]
  boundary d hd := by
    rw [List.mem_singleton.mp hd]
    exact hc.1
  empty d hd he := by
    obtain rfl := List.mem_singleton.mp hd
    refine ⟨rfl, (hempty he).1, ?_⟩
    by_cases h0 : (cb s₀.app d.etype d.bytes).1 = 0
    · obtain ⟨hr, hlast, hri⟩ := h.next h0
      exact .inl ⟨hr, hlast.trans he, by rw [hri, hi, (hempty he).2]⟩
    · exact .inr ⟨h.fail h0, s₀.app, he ▸ h0⟩
  next hr := by
    by_cases h0 : (cb s₀.app c.etype c.bytes).1 = 0
    · obtain ⟨-, hlast, hri⟩ := h.next h0
      rw [hlast, hri, hi]
      exact ⟨by omega, hc.2, hlong, hparts⟩
    · rw [h.fail h0] at hr
      cases hr

end HeaderTurn

theorem text_header {e : PostEt} {text : List UInt8} {s₀ : PdpState σ} (hs₀ : s₀.i = s.i)
    (hcalls : postCalls s₀.events = postCalls s.events) (htext : 0 < text.length)
    (he : e ≠ .boundary ∧ e ≠ .value) (hempty : e = .emptyLine → text.length = 4)
    (hlong : s.lastItemType = .contentType → s.i + 4 ≤ buf.length)
    (hparts : PartsTo line buf s.lastItemType s.i → PartsTo line buf e (s.i + text.length)) :
    ∃ cs, HeaderTurn cb line buf s (consumeItem beyond buf cb s₀ e text.length) cs :=
  ⟨_, .of_call (consumeItem2_call beyond buf cb s₀ e s₀.i rfl rfl) hcalls hs₀ htext he
    (fun h => ⟨congrArg some hs₀, hempty h⟩) hlong fun h _ => .inl (hparts h)⟩

theorem quoted_header {e : PostEt} {text : List UInt8} {s₀ : PdpState σ} (hs₀ : s₀.i = s.i)
    (hcalls : postCalls s₀.events = postCalls s.events)
    (he : e ≠ .boundary ∧ e ≠ .value ∧ e ≠ .emptyLine) (hlast : s.lastItemType ≠ .contentType)
    (hpre : text <+: buf.drop s.i)
    (hparts : ∀ v rest, PartsTo line buf s.lastItemType s.i →
      buf.drop s.i = text ++ (v ++ 34 :: rest) → 34 ∉ v →
      PartsTo line buf e (s.i + text.length + v.length + 1)) :
    ∃ cs, HeaderTurn cb line buf s
      (if getNameEnd buf (s₀.i + text.length) ≤ 0 then (.exx, s₀)
        else consumeItem2 beyond buf cb s₀ e (getNameEnd buf (s₀.i + text.length) - s₀.i + 1)
          (s₀.i + text.length) (getNameEnd buf (s₀.i + text.length) - s₀.i - text.length)) cs := by
  obtain ⟨tail, hsplit⟩ := hpre
  split
  · exact ⟨[], .stop (fun h => nomatch h) hcalls⟩
  · next hpos =>
    obtain ⟨v, rest, hname, hv, hend⟩ := getNameEnd_split hpos
    rw [hs₀, drop_add_of_drop hsplit.symm] at hname
    rw [hend]
    have hcall := consumeItem2_call beyond buf cb s₀ e (s₀.i + text.length)
      (show ((s₀.i + text.length : Nat) : Int) + v.length - s₀.i + 1
        = (text.length + v.length + 1 : Nat) by omega)
      (show ((s₀.i + text.length : Nat) : Int) + v.length - s₀.i - text.length = v.length by omega)
    refine ⟨_, .of_call hcall hcalls hs₀ (by omega) ⟨he.1, he.2.1⟩ (fun h => absurd h he.2.2)
      (fun h => absurd h hlast) fun h _ => .inl ?_⟩
    have hp := hparts v rest h (by rw [← hsplit, hname]) hv
    rw [show s.i + (text.length + v.length + 1) = s.i + text.length + v.length + 1 by omega]
    exact hp

theorem contentType_header {s₀ : PdpState σ} (hs₀ : s₀.i = s.i)
    (hcalls : postCalls s₀.events = postCalls s.events) (hlast : s.lastItemType = .filename)
    (hpre : contentTypePrefix <+: buf.drop s.i)
    (hlong : contentTypePrefix.length + 2 ≤ buf.length - s.i)
    (hfind : memmem (readBytes beyond buf (s.i + (contentTypePrefix.length + 1)) (buf.length - s.i)) crlf
      = some k) :
    ∃ cs, HeaderTurn cb line buf s
      (consumeItem2 beyond buf cb s₀ .contentType
        (((s.i + (contentTypePrefix.length + 1) : Nat) : Int) + k - s₀.i)
        (s₀.i + contentTypePrefix.length)
        (((s.i + (contentTypePrefix.length + 1) : Nat) : Int) + k - s₀.i - contentTypePrefix.length))
      cs := by
  rw [hs₀]
  have hcall := consumeItem2_call beyond buf cb s₀ .contentType (s.i + contentTypePrefix.length)
    (show ((s.i + (contentTypePrefix.length + 1) : Nat) : Int) + k - s.i
      = (contentTypePrefix.length + 1 + k : Nat) by omega)
    (show ((s.i + (contentTypePrefix.length + 1) : Nat) : Int) + k - s.i - contentTypePrefix.length
      = (k + 1 : Nat) by omega)
  refine ⟨_, .of_call hcall hcalls hs₀ (by omega) ⟨nofun, nofun⟩ (fun h => nomatch h)
    (fun h => by rw [hlast] at h; cases h) fun h hlt => ?_⟩
  rw [← Nat.add_assoc s.i] at hlt ⊢
  rw [readBytes_across beyond (by omega) (by omega)] at hfind
  cases hinside : findInfix crlf (buf.drop (s.i + (contentTypePrefix.length + 1))) with
  | some j =>
    have hjk : j = k := Option.some.inj ((findInfix_append hinside _).symm.trans hfind)
    subst hjk
    rw [hlast] at h
    exact .inl (.contentType h hpre hlong hinside)
  | none =>
    -- 本体の中に無ければ、終わりにかかる
    refine .inr ⟨rfl, ?_⟩
    obtain ⟨-, hat, -⟩ := findInfix_eq_some_iff.mp hfind
    by_contra hfar
    refine (findInfix_eq_none_iff (List.cons_ne_nil 13 [10])).mp hinside k ?_
    rw [List.drop_append_of_le_length (by rw [List.length_drop]; omega)] at hat
    refine List.prefix_of_prefix_length_le hat (List.prefix_append _ _) ?_
    rw [List.length_drop, List.length_drop]
    show 2 ≤ _
    omega

/-- **空行と値の後でなければ、一回りは区切りを渡さない。** -/
theorem pdpTurn_header (he : s.lastItemType ≠ .emptyLine)
    (hv : s.lastItemType ≠ .value) :
    ∃ cs, HeaderTurn cb line buf s (pdpTurn beyond buf cb (delimiter line) s) cs := by
  unfold pdpTurn
  cases hlast : s.lastItemType with
  | void => exact ⟨[], .stop (by simp) rfl⟩
  | error => exact ⟨[], .stop (by simp) rfl⟩
  | finish => exact ⟨[], .stop (by simp) rfl⟩
  | emptyLine => exact absurd hlast he
  | value => exact absurd hlast hv
  | boundary =>
    obtain ⟨s₀, hlook, hs₀, hcalls⟩ := looksAt_calls beyond buf contentDfd s le_rfl
    dsimp only
    rw [hlook]
    dsimp only
    split
    · next hfound =>
      refine text_header hs₀ hcalls (by decide) (by simp) (by simp)
        (fun h => by rw [hlast] at h; cases h) fun h => ?_
      rw [hlast] at h
      exact .formData h (of_decide_eq_true hfound).2
    · split
      · refine ⟨[⟨.finish, some s₀.i, readBytes beyond buf s₀.i 4⟩], ⟨?_, ?_, ?_, by simp⟩⟩
        · rw [← hcalls]
          simp [PdpState.call, postCalls, PdpEvent.call?]
        · intro c hc
          rw [List.mem_singleton.mp hc]
          exact fun h => by cases h
        · intro c hc hempty
          rw [List.mem_singleton.mp hc] at hempty
          cases hempty
      · exact ⟨[], .stop (by simp) hcalls⟩
  | contentFormData =>
    obtain ⟨s₀, hlook, hs₀, hcalls⟩ := looksAt_calls beyond buf nameS s le_rfl
    dsimp only
    rw [hlook]
    dsimp only
    split
    · next hfound =>
      refine quoted_header hs₀ hcalls (by simp) (by rw [hlast]; exact (by simp))
        (of_decide_eq_true hfound).2 fun v rest h hp hq => ?_
      rw [hlast] at h
      exact .name h hp hq
    · exact ⟨[], .stop (by simp) hcalls⟩
  | name =>
    obtain ⟨s₀, hlook, hs₀, hcalls⟩ := looksAt_calls beyond buf fnameS s le_rfl
    obtain ⟨s₁, hlook₁, hs₁, hcalls₁⟩ := looksAt_calls beyond buf emptyLine s₀ le_rfl
    dsimp only
    rw [hlook]
    dsimp only
    split
    · next hfound =>
      refine quoted_header hs₀ hcalls (by simp) (by rw [hlast]; exact (by simp))
        (of_decide_eq_true hfound).2 fun v rest h hp hq => ?_
      rw [hlast] at h
      exact .filename h hp hq
    · rw [hlook₁, hs₀]
      dsimp only
      split
      · next hfound =>
        refine text_header (hs₁.trans hs₀) (hcalls₁.trans hcalls) (by decide) (by simp)
          (fun _ => rfl) (fun h => by rw [hlast] at h; cases h) fun h => ?_
        rw [hlast] at h
        exact .emptyName h (of_decide_eq_true hfound).2
      · exact ⟨[], .stop (by simp) (hcalls₁.trans hcalls)⟩
  | filename =>
    obtain ⟨s₀, hlook, hs₀, hcalls⟩ := looksAt_calls beyond buf contentTypePrefix s
      (Nat.le_add_right contentTypePrefix.length 2)
    dsimp only
    rw [hlook]
    dsimp only
    split
    · next hfound =>
      obtain ⟨hlong, hpre⟩ := of_decide_eq_true hfound
      have hread := (postCalls_read s₀ (s.i + (contentTypePrefix.length + 1))
        (buf.length - s.i)).trans hcalls
      rw [hs₀]
      split
      · exact ⟨[], .stop (by simp) hread⟩
      · next k hfind =>
        have hs₁ : (s₀.read (s.i + (contentTypePrefix.length + 1)) (buf.length - s.i)).i = s.i := hs₀
        exact contentType_header hs₁ hread hlast hpre hlong hfind
    · exact ⟨[], .stop (by simp) hcalls⟩
  | contentType =>
    obtain ⟨s₀, hlook, hs₀, hcalls⟩ := looksAt_calls beyond buf emptyLine s le_rfl
    dsimp only
    rw [hlook]
    dsimp only
    split
    · next hfound =>
      have hlong : 4 ≤ buf.length - s.i := (of_decide_eq_true hfound).1
      refine text_header hs₀ hcalls (by decide) (by simp) (fun _ => rfl)
        (fun _ => by omega) fun h => ?_
      rw [hlast] at h
      exact .emptyType h (of_decide_eq_true hfound).2
    · exact ⟨[], .stop (by simp) hcalls⟩

theorem andThen_next {r : PdpNext × PdpState σ} {f : PdpState σ → PdpNext × PdpState σ}
    (h : r.1 = .next) : andThen r f = f r.2 := by
  obtain ⟨n, s⟩ := r
  cases h
  rfl

theorem andThen_stop {r : PdpNext × PdpState σ} {f : PdpState σ → PdpNext × PdpState σ}
    (h : r.1 ≠ .next) : andThen r f = r := by
  obtain ⟨n, s⟩ := r
  cases n with
  | next => exact absurd rfl h
  | _ => rfl

/-- 値の一回り。`k` は、探す列が初めて現れる位置である。 -/
inductive ValueTurn (cb : PostDataParserAppCb σ) (line buf : List UInt8) (s : PdpState σ)
    (r : PdpNext × PdpState σ) : Prop where
  /-- 探す列が無ければ、残りを渡して終わる -/
  | rest (hk : findInfix (delimiter line) (buf.drop s.i) = none) (hr : r.1 = .ok ∨ r.1 = .fail)
      (hcalls : postCalls r.2.events = postCalls s.events ++ [⟨.value, some s.i, buf.drop s.i⟩])
  /-- 値を断られた -/
  | refused {k : Nat} (hk : findInfix (delimiter line) (buf.drop s.i) = some k) (hr : r.1 = .fail)
      (a : σ) (ha : (cb a .value ((buf.drop s.i).take k)).1 ≠ 0)
      (hcalls : postCalls r.2.events
        = postCalls s.events ++ [⟨.value, some s.i, (buf.drop s.i).take k⟩])
  /-- 区切りを渡す -/
  | found {k : Nat} (bytes : List UInt8)
      (hk : findInfix (delimiter line) (buf.drop s.i) = some k)
      (hr : r.1 = .fail ∧ (∃ a, (cb a .boundary bytes).1 ≠ 0) ∨ r.1 = .next ∧
        r.2.lastItemType = .boundary ∧ r.2.i = s.i + k + ((delimiter line).length + 1))
      (hcalls : postCalls r.2.events = postCalls s.events ++
        [⟨.value, some s.i, (buf.drop s.i).take k⟩, ⟨.boundary, some (s.i + k), bytes⟩])

/-- **空行の後の一回りは、探す列までを値として渡す。** -/
theorem pdpTurn_valueTurn (hi : s.i < buf.length) (hlast : s.lastItemType = .emptyLine) :
    ValueTurn cb line buf s (pdpTurn beyond buf cb (delimiter line) s) := by
  unfold pdpTurn
  rw [hlast]
  dsimp only
  rw [readBytes_rest beyond hi.le]
  have hread := postCalls_read s s.i (buf.length - s.i)
  generalize hs₀ : s.read s.i (buf.length - s.i) = s₀ at hread ⊢
  have hsi : s₀.i = s.i := by
    rw [← hs₀]
    rfl
  have hvalue : ∀ {k : Nat} {len : Int}, len = k → s.i + k ≤ buf.length →
      CallTurn cb s₀ ⟨.value, some s.i, (buf.drop s.i).take k⟩ k
        (consumeItem beyond buf cb s₀ .value len) := by
    intro k len hlen hk
    have hcall := consumeItem2_call beyond buf cb s₀ .value s₀.i hlen hlen
    rw [hsi, readBytes_inside beyond hk] at hcall
    unfold consumeItem
    rw [hsi]
    exact hcall
  cases hk : memmem (buf.drop s.i) (delimiter line) with
  | none =>
    have hcall := hvalue (show (buf.length : Int) - s₀.i = (buf.length - s.i : Nat) by omega) (by omega)
    rw [List.take_of_length_le (by rw [List.length_drop])] at hcall
    dsimp only
    by_cases h0 : (cb s₀.app .value (buf.drop s.i)).1 = 0
    · rw [andThen_next (hcall.next h0).1]
      refine .rest hk (.inl rfl) ?_
      rw [hcall.calls, hread]
    · have hfail := hcall.fail h0
      rw [andThen_stop (by rw [hfail]; exact nofun)]
      refine .rest hk (.inr hfail) ?_
      rw [hcall.calls, hread]
  | some k =>
    have hle : s.i + k ≤ buf.length := by
      have hkl := (findInfix_eq_some_iff.mp hk).1
      rw [List.length_drop] at hkl
      omega
    have hcall := hvalue (show (k : Int) = k from rfl) hle
    dsimp only
    by_cases h0 : (cb s₀.app .value ((buf.drop s.i).take k)).1 = 0
    · obtain ⟨hnext, -, hri⟩ := hcall.next h0
      have hcalls := hcall.calls
      rw [andThen_next hnext]
      generalize (consumeItem beyond buf cb s₀ .value (k : Int)).2 = s₁ at hcalls hri ⊢
      have hbound := consumeItem2_call beyond buf cb s₁ .boundary s₁.i
        (show ((delimiter line).length : Int) + 1 = ((delimiter line).length + 1 : Nat) by omega)
        (show ((delimiter line).length : Int) + 1 = ((delimiter line).length + 1 : Nat) by omega)
      rw [hri, hsi] at hbound
      unfold consumeItem
      rw [hri, hsi]
      refine .found _ hk ?_ (by rw [hbound.calls, hcalls, hread, List.append_assoc]; rfl)
      by_cases hb : (cb s₁.app .boundary (readBytes beyond buf (s.i + k) ((delimiter line).length + 1))).1
          = 0
      · obtain ⟨hn, hl, hb⟩ := hbound.next hb
        exact .inr ⟨hn, hl, by rw [hb, hri, hsi]⟩
      · exact .inl ⟨hbound.fail hb, s₁.app, hb⟩
    · have hfail := hcall.fail h0
      rw [andThen_stop (by rw [hfail]; exact nofun)]
      refine .refused hk hfail s₀.app h0 ?_
      rw [hcall.calls, hread]

/-! ## loop の呼び出し -/

/-- loop を抜けた後の、`POST_ET_ERROR` も含めた呼び出し。 -/
def finalCalls (t : PdpNext × PdpState σ) : List PostCall :=
  postCalls t.2.events ++ if t.1 = .exx then [⟨.error, none, []⟩] else []

theorem postCalls_return (cb : PostDataParserAppCb σ) (ctx : PostDataCtx)
    (t : PdpNext × PdpState σ) : postCalls (pdpReturn cb ctx t).events = finalCalls t := by
  obtain ⟨n, s⟩ := t
  cases n with
  | exx => exact postCalls_append _ _
  | _ => exact (List.append_nil _).symm

structure PostGood (cb : PostDataParserAppCb σ) (body : List UInt8) (cs : List PostCall) : Prop where
  boundary : ∀ c ∈ cs, c.etype = .boundary →
    ∃ p, c.ptr = some p ∧ crlf ++ firstLine body <+: body.drop p
  value : ∀ pre q bytes post, cs = pre ++ ⟨.emptyLine, some q, bytes⟩ :: post →
    body.drop (q + 4) ≠ [] → (post = [] ∧ ∃ a, (cb a .emptyLine bytes).1 ≠ 0) ∨
      ∃ post', post = ⟨.value, some (q + 4), untilBoundary body (q + 4)⟩ :: post'

namespace PostGood

variable {cs₁ cs₂ : List PostCall}

theorem of_forall (h : ∀ c ∈ cs₁, c.etype ≠ .boundary ∧ c.etype ≠ .emptyLine) :
    PostGood cb buf cs₁ where
  boundary c hc he := absurd he (h c hc).1
  value pre q bytes post hcs := by
    refine absurd rfl (h ⟨.emptyLine, some q, bytes⟩ ?_).2
    rw [hcs]
    exact List.mem_append_right _ List.mem_cons_self

theorem append (h₁ : PostGood cb buf cs₁) (hempty : ∀ c ∈ cs₁, c.etype ≠ .emptyLine)
    (h₂ : PostGood cb buf cs₂) : PostGood cb buf (cs₁ ++ cs₂) where
  boundary c hc he := by
    rcases List.mem_append.mp hc with hc | hc
    · exact h₁.boundary c hc he
    · exact h₂.boundary c hc he
  value pre q bytes post hcs hne := by
    rcases List.append_eq_append_iff.mp hcs with ⟨pre', -, hcs₂⟩ | ⟨post₁, hcs₁, hpost⟩
    · exact h₂.value pre' q bytes post hcs₂ hne
    · cases post₁ with
      | nil => exact h₂.value [] q bytes post hpost.symm hne
      | cons c post₁ =>
        obtain ⟨rfl, -⟩ := List.cons.inj hpost
        refine absurd rfl (hempty ⟨.emptyLine, some q, bytes⟩ ?_)
        rw [hcs₁]
        exact List.mem_append_right _ List.mem_cons_self

theorem cons_empty {q : Nat} {bytes : List UInt8} (h₂ : PostGood cb buf cs₂)
    (hnext : buf.drop (q + 4) ≠ [] → (cs₂ = [] ∧ ∃ a, (cb a .emptyLine bytes).1 ≠ 0) ∨
      ∃ post', cs₂ = ⟨.value, some (q + 4), untilBoundary buf (q + 4)⟩ :: post') :
    PostGood cb buf (⟨.emptyLine, some q, bytes⟩ :: cs₂) where
  boundary c hc he := by
    rcases List.mem_cons.mp hc with rfl | hc
    · cases he
    · exact h₂.boundary c hc he
  value pre q' bytes' post hcs hne := by
    cases pre with
    | nil =>
      obtain ⟨hc, rfl⟩ := List.cons.inj hcs
      cases hc
      exact hnext hne
    | cons c pre => exact h₂.value pre q' bytes' post (List.cons.inj hcs).2 hne

end PostGood

theorem untilBoundary_eq {p : Nat} (hne : firstLine buf ≠ [])
    (hk : findInfix (delimiter (firstLine buf)) (buf.drop p) = some k)
    (hfull : crlf ++ firstLine buf <+: buf.drop (p + k)) :
    findInfix (crlf ++ firstLine buf) (buf.drop p) = some k ∧
      untilBoundary buf p = (buf.drop p).take k := by
  obtain ⟨hle, -, hfirst⟩ := findInfix_eq_some_iff.mp hk
  have hfind : findInfix (crlf ++ firstLine buf) (buf.drop p) = some k := by
    refine findInfix_eq_some_iff.mpr ⟨hle, by rw [List.drop_drop]; exact hfull, fun j hj hp => ?_⟩
    refine hfirst j hj (List.IsPrefix.trans ?_ hp)
    rw [← delimiter_append hne]
    exact List.prefix_append _ _
  refine ⟨hfind, ?_⟩
  unfold untilBoundary
  rw [hfind]

theorem untilBoundary_none {p : Nat} (hne : firstLine buf ≠ [])
    (hk : findInfix (delimiter (firstLine buf)) (buf.drop p) = none) :
    untilBoundary buf p = buf.drop p := by
  have hnone : findInfix (crlf ++ firstLine buf) (buf.drop p) = none := by
    have hpat : crlf ++ firstLine buf ≠ [] := List.cons_ne_nil 13 _
    refine (findInfix_eq_none_iff hpat).mpr fun j hp => ?_
    refine (findInfix_eq_none_iff (delimiter_ne_nil _)).mp hk j (List.IsPrefix.trans ?_ hp)
    rw [← delimiter_append hne]
    exact List.prefix_append _ _
  unfold untilBoundary
  rw [hnone]

def LoopReady (buf : List UInt8) (s : PdpState σ) : Prop :=
  s.i < buf.length → PartsTo (firstLine buf) buf s.lastItemType s.i ∨
    s.lastItemType = .contentType ∧ buf.length < s.i + 4

def LoopGood (buf : List UInt8) (cb : PostDataParserAppCb σ) (s : PdpState σ)
    (o : Option (PdpNext × PdpState σ)) : Prop :=
  ∃ t cs, o = some t ∧ finalCalls t = postCalls s.events ++ cs ∧
    (WholeBoundaries (firstLine buf) buf → LoopReady buf s → PostGood cb buf cs ∧
      (s.lastItemType = .emptyLine → s.i < buf.length →
        ∃ post, cs = ⟨.value, some s.i, untilBoundary buf s.i⟩ :: post))

theorem ValueTurn.loopGood {r : PdpNext × PdpState σ} {o : Option (PdpNext × PdpState σ)}
    (hturn : ValueTurn cb (firstLine buf) buf s r) (hne : firstLine buf ≠ [])
    (he : s.lastItemType = .emptyLine) (hi : s.i < buf.length)
    (hstop : r.1 ≠ .next → o = some r)
    (hgo : r.1 = .next → r.2.lastItemType ≠ .value → s.i < r.2.i → LoopGood buf cb r.2 o) :
    LoopGood buf cb s o := by
  have hwhole : ∀ {k : Nat}, WholeBoundaries (firstLine buf) buf → LoopReady buf s →
      findInfix (delimiter (firstLine buf)) (buf.drop s.i) = some k →
      PartsTo (firstLine buf) buf .emptyLine s.i ∧
        crlf ++ firstLine buf <+: buf.drop (s.i + k) := by
    intro k hw hready hk
    rcases hready hi with hparts | ⟨hct, -⟩
    · rw [he] at hparts
      exact ⟨hparts, hw _ _ hparts hk⟩
    · rw [he] at hct
      cases hct
  have hfinal : r.1 ≠ .exx → finalCalls r = postCalls r.2.events := by
    intro hx
    unfold finalCalls
    rw [if_neg hx, List.append_nil]
  cases hturn with
  | rest hk hr hcalls =>
    have hn : r.1 ≠ .next ∧ r.1 ≠ .exx := by
      rcases hr with hr | hr <;> rw [hr] <;> exact ⟨nofun, nofun⟩
    refine ⟨r, _, hstop hn.1, (hfinal hn.2).trans hcalls, fun _ _ => ⟨.of_forall ?_, fun _ _ => ?_⟩⟩
    · intro c hc
      rw [List.mem_singleton.mp hc]
      exact ⟨nofun, nofun⟩
    · exact ⟨[], by rw [untilBoundary_none hne hk]⟩
  | @refused k hk hr a ha hcalls =>
    have hn : r.1 ≠ .next ∧ r.1 ≠ .exx := by
      rw [hr]
      exact ⟨nofun, nofun⟩
    refine ⟨r, _, hstop hn.1, (hfinal hn.2).trans hcalls, fun hw hready => ⟨.of_forall ?_,
      fun _ _ => ?_⟩⟩
    · intro c hc
      rw [List.mem_singleton.mp hc]
      exact ⟨nofun, nofun⟩
    · exact ⟨[], by rw [(untilBoundary_eq hne hk (hwhole hw hready hk).2).2]⟩
  | @found k bytes hk hr hcalls =>
    have hpair : WholeBoundaries (firstLine buf) buf → LoopReady buf s → PostGood cb buf
        [⟨.value, some s.i, (buf.drop s.i).take k⟩, ⟨.boundary, some (s.i + k), bytes⟩] := by
      intro hw hready
      refine ⟨?_, ?_⟩
      · intro c hc hb
        rcases List.mem_cons.mp hc with rfl | hc
        · cases hb
        · rw [List.mem_singleton.mp hc]
          exact ⟨_, rfl, (hwhole hw hready hk).2⟩
      · intro pre q bs post hcs
        have hmem : (⟨.emptyLine, some q, bs⟩ : PostCall) ∈
            pre ++ ⟨.emptyLine, some q, bs⟩ :: post := List.mem_append_right _ List.mem_cons_self
        rw [← hcs] at hmem
        simp at hmem
    rcases hr with ⟨hr, -⟩ | ⟨hr, hlast, hri⟩
    · have hn : r.1 ≠ .next ∧ r.1 ≠ .exx := by
        rw [hr]
        exact ⟨nofun, nofun⟩
      refine ⟨r, _, hstop hn.1, (hfinal hn.2).trans hcalls, fun hw hready => ⟨hpair hw hready,
        fun _ _ => ⟨[⟨.boundary, some (s.i + k), bytes⟩], ?_⟩⟩⟩
      rw [(untilBoundary_eq hne hk (hwhole hw hready hk).2).2]
    · obtain ⟨t, cs, ho, hcs, hgood⟩ := hgo hr (by rw [hlast]; exact nofun) (by omega)
      refine ⟨t, [⟨.value, some s.i, (buf.drop s.i).take k⟩, ⟨.boundary, some (s.i + k), bytes⟩] ++ cs,
        ho, by rw [hcs, hcalls, List.append_assoc], fun hw hready => ?_⟩
      obtain ⟨hparts, hfull⟩ := hwhole hw hready hk
      obtain ⟨hfind, huntil⟩ := untilBoundary_eq hne hk hfull
      have hlen : (crlf ++ firstLine buf).length = (delimiter (firstLine buf)).length + 1 := by
        rw [← delimiter_append hne, List.length_append, List.length_singleton]
      have hready' : LoopReady buf r.2 := by
        intro _
        refine .inl ?_
        rw [hlast, hri, ← hlen]
        exact .value hparts hfind
      refine ⟨(hpair hw hready).append ?_ (hgood hw hready').1,
        fun _ _ => ⟨⟨.boundary, some (s.i + k), bytes⟩ :: cs, ?_⟩⟩
      · simp
      · rw [huntil]
        rfl

theorem HeaderTurn.loopGood {r : PdpNext × PdpState σ} {o : Option (PdpNext × PdpState σ)}
    {cs : List PostCall} (hturn : HeaderTurn cb (firstLine buf) buf s r cs)
    (he : s.lastItemType ≠ .emptyLine) (hi : s.i < buf.length)
    (hstop : r.1 ≠ .next → o = some r)
    (hgo : r.1 = .next → r.2.lastItemType ≠ .value → s.i < r.2.i → LoopGood buf cb r.2 o) :
    LoopGood buf cb s o := by
  -- 空行を渡したかどうかで分ける
  have hsplit : ∀ {cs' : List PostCall}, PostGood cb buf cs' →
      (∀ c ∈ cs, c.etype = .emptyLine → ∀ q, c.ptr = some q → buf.drop (q + 4) ≠ [] →
        (cs' = [] ∧ ∃ a, (cb a .emptyLine c.bytes).1 ≠ 0) ∨
          ∃ post', cs' = ⟨.value, some (q + 4), untilBoundary buf (q + 4)⟩ :: post') →
      PostGood cb buf (cs ++ cs') := by
    intro cs' hcs' hnext
    by_cases hempty : ∃ c ∈ cs, c.etype = .emptyLine
    · obtain ⟨c, hc, hce⟩ := hempty
      obtain ⟨hone, hptr, -⟩ := hturn.empty c hc hce
      rw [hone]
      obtain ⟨e, ptr, bytes⟩ := c
      cases hce
      cases hptr
      exact hcs'.cons_empty (hnext _ hc rfl s.i rfl)
    · have hno : ∀ c ∈ cs, c.etype ≠ .emptyLine := fun c hc hce => hempty ⟨c, hc, hce⟩
      exact PostGood.append (.of_forall fun c hc => ⟨hturn.boundary c hc, hno c hc⟩) hno hcs'
  by_cases hn : r.1 = .next
  · obtain ⟨hlt, hv, hlong, hparts⟩ := hturn.next hn
    obtain ⟨t, cs', ho, hcs, hgood⟩ := hgo hn hv hlt
    refine ⟨t, cs ++ cs', ho, by rw [hcs, hturn.calls, List.append_assoc], fun hw hready =>
      ⟨?_, fun h => absurd h he⟩⟩
    have hready' : LoopReady buf r.2 := by
      intro hlt'
      rcases hready hi with h | ⟨hct, hshort⟩
      · exact hparts h hlt'
      · have := hlong hct
        omega
    obtain ⟨hgood', hhead⟩ := hgood hw hready'
    refine hsplit hgood' fun c hc hce q hq hne => ?_
    obtain ⟨-, hptr, hr⟩ := hturn.empty c hc hce
    obtain rfl : s.i = q := Option.some.inj (hptr.symm.trans hq)
    rcases hr with ⟨-, hlast, hri⟩ | ⟨hr, -⟩
    · rw [hri] at hhead
      exact .inr (hhead hlast (by
        by_contra hle
        exact hne (List.drop_eq_nil_of_le (Nat.le_of_not_lt hle))))
    · rw [hr] at hn
      cases hn
  · refine ⟨r, cs ++ if r.1 = .exx then [⟨.error, none, []⟩] else [], hstop hn, ?_, fun _ _ =>
      ⟨?_, fun h => absurd h he⟩⟩
    · unfold finalCalls
      rw [hturn.calls, List.append_assoc]
    · refine hsplit (.of_forall ?_) fun c hc hce q hq _ => ?_
      · intro c hc
        split at hc
        · rw [List.mem_singleton.mp hc]
          exact ⟨nofun, nofun⟩
        · cases hc
      · obtain ⟨-, -, hr⟩ := hturn.empty c hc hce
        rcases hr with ⟨hr, -⟩ | ⟨hr, ha⟩
        · exact absurd hr hn
        · refine .inl ⟨?_, ha⟩
          rw [hr]
          rfl

/-- **loop は終わり、条件が成り立つ本体では、区切りと値を正しく渡す。** -/
theorem pdpLoop_calls (hne : firstLine buf ≠ []) (fuel : Nat) : ∀ {s : PdpState σ},
    s.lastItemType ≠ .value → buf.length - s.i ≤ fuel →
    LoopGood buf cb s (pdpLoop beyond buf cb (delimiter (firstLine buf)) fuel s) := by
  have hend : ∀ {s : PdpState σ}, buf.length ≤ s.i → LoopGood buf cb s (some (.ok, s)) := by
    intro s hi
    refine ⟨(.ok, s), [], rfl, rfl, fun _ _ => ⟨.of_forall nofun, fun _ hlt => ?_⟩⟩
    omega
  induction fuel with
  | zero =>
    intro s _ hfuel
    rw [pdpLoop_end _ 0 (by omega)]
    exact hend (by omega)
  | succ fuel ih =>
    intro s hv hfuel
    by_cases hi : s.i < buf.length
    · have hstop : (pdpTurn beyond buf cb (delimiter (firstLine buf)) s).1 ≠ .next →
          pdpLoop beyond buf cb (delimiter (firstLine buf)) (fuel + 1) s
            = some (pdpTurn beyond buf cb (delimiter (firstLine buf)) s) := fun hn =>
        pdpLoop_stop hi hfuel rfl hn
      have hgo : (pdpTurn beyond buf cb (delimiter (firstLine buf)) s).1 = .next →
          (pdpTurn beyond buf cb (delimiter (firstLine buf)) s).2.lastItemType ≠ .value →
          s.i < (pdpTurn beyond buf cb (delimiter (firstLine buf)) s).2.i →
          LoopGood buf cb (pdpTurn beyond buf cb (delimiter (firstLine buf)) s).2
            (pdpLoop beyond buf cb (delimiter (firstLine buf)) (fuel + 1) s) := by
        intro hn hl hlt
        have hloop : pdpLoop beyond buf cb (delimiter (firstLine buf)) (fuel + 1) s
            = pdpLoop beyond buf cb (delimiter (firstLine buf)) fuel
              (pdpTurn beyond buf cb (delimiter (firstLine buf)) s).2 := by
          rw [pdpLoop, if_pos hi]
          generalize pdpTurn beyond buf cb (delimiter (firstLine buf)) s = r at hn
          obtain ⟨n, s'⟩ := r
          cases hn
          rfl
        rw [hloop]
        exact ih hl (by omega)
      by_cases he : s.lastItemType = .emptyLine
      · exact (pdpTurn_valueTurn hi he).loopGood hne he hi hstop hgo
      · obtain ⟨cs, hturn⟩ := pdpTurn_header he hv
        exact hturn.loopGood he hi hstop hgo
    · rw [pdpLoop_end _ _ (by omega)]
      exact hend (by omega)

end

end Esq
