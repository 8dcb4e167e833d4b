import Esq.PostData.Accept
import Esq.PostData.WholeBoundary

/-!
# 見る範囲と渡す範囲

`post_data_parser` が `memmem` と `memcmp` で見る範囲と callback に渡す範囲が、buffer の中にあるか。

`Content-Type` の行の終わりを探す範囲は、見出しの分だけ後ろから始まるのに、長さは残りの全体である。また、区切りの
後の一 byte が buffer に無くても、区切りとして渡す。範囲が外に出るのはこの二つであり、それ以外では、どの chunk も
最後まで読み終わる（`post_inside_iff`）。
-/

namespace Esq

open Infra

/-- 起きたことは、`n` byte の buffer の中である。NULL は長さ 0 で渡す。 -/
def PdpEvent.Inside (n : Nat) : PdpEvent → Prop
  | .call _ none len _ => len = 0
  | .call _ (some ptr) len _ => 0 ≤ len ∧ (ptr : Int) + len ≤ n
  | .read offset len => offset + len ≤ n

/-! ## 断らないときの進み方 -/

def scanQuote (buf : List UInt8) (e : PostEt) (start : Nat) : Option (PostEt × Nat) :=
  ((buf.drop start).findIdx? (· == 34)).map fun k => (e, start + k + 1)

def scanNext (boundary buf : List UInt8) : PostEt → Nat → Option (PostEt × Nat)
  | .boundary, p =>
    if contentDfd <+: buf.drop p then some (.contentFormData, p + contentDfd.length) else none
  | .contentFormData, p =>
    if nameS <+: buf.drop p then scanQuote buf .name (p + nameS.length) else none
  | .name, p =>
    if fnameS <+: buf.drop p then scanQuote buf .filename (p + fnameS.length)
    else if emptyLine <+: buf.drop p then some (.emptyLine, p + emptyLine.length)
    else none
  | .contentType, p =>
    if emptyLine <+: buf.drop p then some (.emptyLine, p + emptyLine.length) else none
  | .emptyLine, p => (memmem (buf.drop p) boundary).map fun k =>
    (.boundary, p + k + (boundary.length + 1))
  | .value, p => (memmem (buf.drop p) boundary).map fun k =>
    (.boundary, p + k + (boundary.length + 1))
  | _, _ => none

def BadAt (boundary buf : List UInt8) : PostEt → Nat → Prop
  | .filename, p => contentTypePrefix.length + 2 ≤ buf.length - p ∧ contentTypePrefix <+: buf.drop p
  | .emptyLine, p => ∃ k, memmem (buf.drop p) boundary = some k ∧
    p + k + boundary.length = buf.length
  | .value, p => ∃ k, memmem (buf.drop p) boundary = some k ∧ p + k + boundary.length = buf.length
  | _, _ => False

inductive ScansTo (boundary buf : List UInt8) : PostEt → Nat → PostEt → Nat → Prop where
  | refl (e : PostEt) (p : Nat) : ScansTo boundary buf e p e p
  | step {e e' e'' : PostEt} {p p' p'' : Nat} (hp : p < buf.length)
      (hnext : scanNext boundary buf e p = some (e', p')) (h : ScansTo boundary buf e' p' e'' p'') :
      ScansTo boundary buf e p e'' p''

/-- 種類 `e`、位置 `p` から進んで、外に出る所に着かない。 -/
def ScanSafe (boundary buf : List UInt8) (e : PostEt) (p : Nat) : Prop :=
  ∀ e' p', ScansTo boundary buf e p e' p' → p' < buf.length → ¬ BadAt boundary buf e' p'

/-- chunk を読み始める所から進んで、外に出る所に着かない。 -/
def ChunkSafe (ctx : PostDataCtx) (chunk : List UInt8) : Prop :=
  if ctx.lastItemType = .void then
    LineLocated chunk → ScanSafe (delimiter (firstLine chunk)) chunk .boundary
      (firstLine chunk).length
  else ScanSafe ctx.boundary chunk ctx.lastItemType 0

/-! ## 起きたことが増える -/

section

variable {σ : Type} {beyond : Nat → UInt8} {buf boundary text : List UInt8}
  {cb : PostDataParserAppCb σ} {s s' s₀ s₁ : PdpState σ} {e e' : PostEt} {i k n : Nat}

/-- `s` の後に起きたことは、どれも buffer の中である。 -/
def Grows (n : Nat) (s s' : PdpState σ) : Prop :=
  ∃ new, s'.events = s.events ++ new ∧ ∀ ev ∈ new, ev.Inside n

theorem Grows.refl (s : PdpState σ) : Grows n s s :=
  ⟨[], (List.append_nil _).symm, List.forall_mem_nil _⟩

theorem Grows.trans (h₀ : Grows n s s₀) (h₁ : Grows n s₀ s₁) : Grows n s s₁ := by
  obtain ⟨new₀, he₀, hin₀⟩ := h₀
  obtain ⟨new₁, he₁, hin₁⟩ := h₁
  refine ⟨new₀ ++ new₁, by rw [he₁, he₀, List.append_assoc], fun ev hev => ?_⟩
  rcases List.mem_append.mp hev with h | h
  · exact hin₀ ev h
  · exact hin₁ ev h

theorem Grows.prefix_events (h : Grows n s s') : s.events <+: s'.events := by
  obtain ⟨new, he, -⟩ := h
  exact ⟨new, he.symm⟩

theorem Grows.read (s : PdpState σ) {offset len : Nat} (h : offset + len ≤ n) :
    Grows n s (s.read offset len) :=
  ⟨[.read offset len], rfl, fun _ hev => by rw [List.mem_singleton.mp hev]; exact h⟩

theorem looksAt_grows (beyond : Nat → UInt8) (buf text : List UInt8) (s : PdpState σ)
    (hi : s.i ≤ buf.length)
    {least : Nat} (hleast : text.length ≤ least) :
    ∃ s₀, looksAt beyond buf s least text
        = (decide (least ≤ buf.length - s.i ∧ text <+: buf.drop s.i), s₀) ∧
      s₀.i = s.i ∧ Grows buf.length s s₀ := by
  obtain ⟨s₀, hlook, hs₀, -⟩ := looksAt_spec beyond buf text s hleast
  refine ⟨s₀, hlook, hs₀, ?_⟩
  have hsnd : (looksAt beyond buf s least text).2 = s₀ := congrArg Prod.snd hlook
  rw [← hsnd]
  unfold looksAt
  split
  · exact Grows.read s (by omega)
  · exact Grows.refl s

theorem looksAt_text (beyond : Nat → UInt8) (buf text : List UInt8) (s : PdpState σ)
    (hi : s.i ≤ buf.length) :
    ∃ s₀, looksAt beyond buf s text.length text = (decide (text <+: buf.drop s.i), s₀) ∧
      s₀.i = s.i ∧ Grows buf.length s s₀ := by
  obtain ⟨s₀, hlook, hs₀⟩ := looksAt_grows beyond buf text s hi le_rfl
  refine ⟨s₀, hlook.trans (Prod.ext (decide_eq_decide.mpr (and_iff_right_of_imp fun hpre => ?_))
    rfl), hs₀⟩
  have := hpre.length_le
  rwa [List.length_drop] at this

/-! ## 要素を渡す一回り -/

/-- 渡した範囲は buffer の中で、断られなければ種類 `e`、位置 `i` に進む。 -/
structure ItemTurn (cb : PostDataParserAppCb σ) (n : Nat) (s : PdpState σ) (e : PostEt) (i : Nat)
    (r : PdpNext × PdpState σ) : Prop where
  grows : Grows n s r.2
  outcome : r.1 = .next ∧ r.2.lastItemType = e ∧ r.2.i = i ∨ r.1 = .fail
  accepted : (∀ a e b, (cb a e b).1 = 0) → r.1 = .next

theorem consumeItem2_called (beyond : Nat → UInt8) (buf : List UInt8) (cb : PostDataParserAppCb σ)
    (s : PdpState σ) (e : PostEt) (value : Nat) (len vlen : Int) (hi : (s.i : Int) + len = i) :
    ∃ bytes, (consumeItem2 beyond buf cb s e len value vlen).2.events
        = s.events ++ [.call e (some value) vlen bytes] ∧
      ((consumeItem2 beyond buf cb s e len value vlen).1 = .next ∧
          (consumeItem2 beyond buf cb s e len value vlen).2.lastItemType = e ∧
          (consumeItem2 beyond buf cb s e len value vlen).2.i = i ∨
        (consumeItem2 beyond buf cb s e len value vlen).1 = .fail) ∧
      ((∀ a e b, (cb a e b).1 = 0) →
        (consumeItem2 beyond buf cb s e len value vlen).1 = .next) := by
  refine ⟨readBytes beyond buf value vlen.toNat, ?_⟩
  unfold consumeItem2 PdpState.call
  dsimp only
  split
  next hr => exact ⟨rfl, .inr rfl, fun hcb => absurd (hcb _ _ _) hr⟩
  next hr => exact ⟨rfl, .inl ⟨rfl, rfl, by dsimp only; omega⟩, fun _ => rfl⟩

theorem consumeItem2_item (s : PdpState σ) {len vlen : Int} {value : Nat} (hv : 0 ≤ vlen)
    (hin : (value : Int) + vlen ≤ n) (hi : (s.i : Int) + len = i) :
    ItemTurn cb n s e i (consumeItem2 beyond buf cb s e len value vlen) := by
  obtain ⟨bytes, hevents, houtcome, haccepted⟩ := consumeItem2_called beyond buf cb s e value len
    vlen hi
  refine ⟨⟨_, hevents, fun _ hev => ?_⟩, houtcome, haccepted⟩
  rw [List.mem_singleton.mp hev]
  exact ⟨hv, hin⟩

theorem ItemTurn.of_grows {r : PdpNext × PdpState σ} (h₀ : Grows n s s₀)
    (h : ItemTurn cb n s₀ e i r) :
    ItemTurn cb n s e i r := ⟨h₀.trans h.grows, h.outcome, h.accepted⟩

/-! ## loop の一回り -/

/-- 一回りの結果。外に出る所でなければ範囲は buffer の中であり、出る所では、断られなければ外に出る。 -/
structure TurnSpec (cb : PostDataParserAppCb σ) (boundary buf : List UInt8) (s : PdpState σ)
    (r : PdpNext × PdpState σ) : Prop where
  grows : s.events <+: r.2.events
  advance : r.1 = .next → s.i < r.2.i
  inside : ¬ BadAt boundary buf s.lastItemType s.i → Grows buf.length s r.2
  next : ¬ BadAt boundary buf s.lastItemType s.i → r.1 = .next →
    scanNext boundary buf s.lastItemType s.i = some (r.2.lastItemType, r.2.i)
  follow : ¬ BadAt boundary buf s.lastItemType s.i → (∀ a e b, (cb a e b).1 = 0) →
    scanNext boundary buf s.lastItemType s.i ≠ none → r.1 = .next
  outside : BadAt boundary buf s.lastItemType s.i → (∀ a e b, (cb a e b).1 = 0) →
    ∃ ev ∈ r.2.events, ¬ ev.Inside buf.length

theorem TurnSpec.stop {r : PdpNext × PdpState σ} (hr : r.1 ≠ .next)
    (hgrows : Grows buf.length s r.2)
    (hnone : scanNext boundary buf s.lastItemType s.i = none)
    (hgood : ¬ BadAt boundary buf s.lastItemType s.i) : TurnSpec cb boundary buf s r where
  grows := hgrows.prefix_events
  advance h := absurd h hr
  inside _ := hgrows
  next _ h := absurd h hr
  follow _ _ h := absurd hnone h
  outside h := absurd h hgood

theorem TurnSpec.item {r : PdpNext × PdpState σ} (h : ItemTurn cb buf.length s e i r)
    (hnext : scanNext boundary buf s.lastItemType s.i = some (e, i)) (hlt : s.i < i)
    (hgood : ¬ BadAt boundary buf s.lastItemType s.i) : TurnSpec cb boundary buf s r where
  grows := h.grows.prefix_events
  advance hr := by
    rcases h.outcome with ⟨-, -, hi⟩ | hf
    · rwa [hi]
    · rw [hf] at hr
      cases hr
  inside _ := h.grows
  next _ hr := by
    rcases h.outcome with ⟨-, he, hi⟩ | hf
    · rw [he, hi, hnext]
    · rw [hf] at hr
      cases hr
  follow _ hcb _ := h.accepted hcb
  outside hb := absurd hb hgood

theorem consumeItem_text (s₀ : PdpState σ) (hs₀ : s₀.i = s.i) (hgrows : Grows buf.length s s₀)
    (hpre : text <+: buf.drop s.i) (hi : s.i ≤ buf.length) :
    ItemTurn cb buf.length s e (s.i + text.length)
      (consumeItem beyond buf cb s₀ e text.length) := by
  have hle := hpre.length_le
  rw [List.length_drop] at hle
  exact (consumeItem2_item s₀ (by omega) (by omega) (by omega)).of_grows hgrows

theorem quoted_turn (htext : 0 < text.length) (s₀ : PdpState σ) (hs₀ : s₀.i = s.i)
    (hgrows : Grows buf.length s s₀)
    (hscan : scanNext boundary buf s.lastItemType s.i = scanQuote buf e (s.i + text.length))
    (hgood : ¬ BadAt boundary buf s.lastItemType s.i) :
    TurnSpec cb boundary buf s
      (if getNameEnd buf (s₀.i + text.length) ≤ 0 then (.exx, s₀)
        else consumeItem2 beyond buf cb s₀ e (getNameEnd buf (s₀.i + text.length) - s₀.i + 1)
          (s₀.i + text.length) (getNameEnd buf (s₀.i + text.length) - s₀.i - text.length)) := by
  rw [hs₀]
  unfold scanQuote at hscan
  cases hq : (buf.drop (s.i + text.length)).findIdx? (· == 34) with
  | none =>
    have hend : getNameEnd buf (s.i + text.length) = -1 := by
      unfold getNameEnd
      rw [hq]
    rw [hq] at hscan
    rw [hend, if_pos (by decide)]
    exact .stop nofun hgrows hscan hgood
  | some k =>
    have hend : getNameEnd buf (s.i + text.length) = ((s.i + text.length : Nat) : Int) + k := by
      unfold getNameEnd
      rw [hq]
    have hk := (List.findIdx?_eq_some_iff_findIdx_eq.mp hq).1
    rw [List.length_drop] at hk
    rw [hq] at hscan
    rw [hend, if_neg (by omega)]
    refine .item ((consumeItem2_item s₀ ?_ ?_ ?_).of_grows hgrows) hscan (by omega) hgood
    · omega
    · omega
    · omega

theorem emptyLine_turn (beyond : Nat → UInt8) (cb : PostDataParserAppCb σ) (s₀ : PdpState σ)
    (hs₀ : s₀.i = s.i) (hgrows : Grows buf.length s s₀) (hi : s.i ≤ buf.length)
    (hscan : scanNext boundary buf s.lastItemType s.i
      = if emptyLine <+: buf.drop s.i then some (.emptyLine, s.i + emptyLine.length) else none)
    (hgood : ¬ BadAt boundary buf s.lastItemType s.i) :
    TurnSpec cb boundary buf s
      (let (found, s) := looksAt beyond buf s₀ emptyLine.length emptyLine
        if found then consumeItem beyond buf cb s .emptyLine emptyLine.length else (.exx, s)) := by
  obtain ⟨s₁, hlook, hs₁, hgrows₁⟩ := looksAt_text beyond buf emptyLine s₀ (hs₀.trans_le hi)
  rw [hs₀] at hlook hs₁
  rw [hlook]
  dsimp only
  split
  next hfound =>
    have hpre := of_decide_eq_true hfound
    rw [if_pos hpre] at hscan
    exact .item (consumeItem_text s₁ hs₁ (hgrows.trans hgrows₁) hpre hi) hscan
      (Nat.lt_add_of_pos_right (by decide)) hgood
  next hno =>
    rw [if_neg (mt decide_eq_true hno)] at hscan
    exact .stop nofun (hgrows.trans hgrows₁) hscan hgood

theorem TurnSpec.bad {r : PdpNext × PdpState σ} (hgrows : s.events <+: r.2.events)
    (hadvance : r.1 = .next → s.i < r.2.i)
    (hout : (∀ a e b, (cb a e b).1 = 0) → ∃ ev ∈ r.2.events, ¬ ev.Inside buf.length)
    (hbad : BadAt boundary buf s.lastItemType s.i) : TurnSpec cb boundary buf s r where
  grows := hgrows
  advance := hadvance
  inside h := absurd hbad h
  next h := absurd hbad h
  follow h := absurd hbad h
  outside _ hcb := hout hcb

theorem boundary_turn {k : Nat} (s₁ : PdpState σ) (hs₁ : s₁.i = s.i + k)
    (hgrows : Grows buf.length s s₁)
    (hscan : scanNext boundary buf s.lastItemType s.i
      = some (.boundary, s.i + k + (boundary.length + 1)))
    (hle : s.i + k + boundary.length ≤ buf.length)
    (hbad : BadAt boundary buf s.lastItemType s.i ↔ s.i + k + boundary.length = buf.length) :
    TurnSpec cb boundary buf s
      (consumeItem beyond buf cb s₁ .boundary ((boundary.length : Int) + 1)) := by
  have hi : (s₁.i : Int) + ((boundary.length : Int) + 1)
    = (s.i + k + (boundary.length + 1) : Nat) := by
    omega
  by_cases heq : s.i + k + boundary.length = buf.length
  · obtain ⟨bytes, hevents, houtcome, -⟩ := consumeItem2_called beyond buf cb s₁ .boundary s₁.i
      ((boundary.length : Int) + 1) ((boundary.length : Int) + 1) hi
    refine .bad ?_ (fun hr => ?_) (fun _ => ?_) (hbad.mpr heq)
    · exact hgrows.prefix_events.trans ⟨_, hevents.symm⟩
    · rcases houtcome with ⟨-, -, hi'⟩ | hf
      · exact lt_of_lt_of_eq (by omega) hi'.symm
      · rw [show consumeItem beyond buf cb s₁ .boundary ((boundary.length : Int) + 1)
          = consumeItem2 beyond buf cb s₁ .boundary ((boundary.length : Int) + 1) s₁.i
              ((boundary.length : Int) + 1) from rfl, hf] at hr
        cases hr
    · refine ⟨_, hevents.symm ▸ List.mem_append_right _ (List.mem_singleton_self _), fun hin => ?_⟩
      have := hin.2
      omega
  · exact .item ((consumeItem2_item s₁ (by omega) (by omega) hi).of_grows hgrows) hscan (by omega)
      (mt hbad.mp heq)

theorem TurnSpec.refused {r : PdpNext × PdpState σ} (hr : r.1 = .fail)
    (hgrows : Grows buf.length s r.2)
    (hcb : ¬ ∀ a e b, (cb a e b).1 = 0) : TurnSpec cb boundary buf s r where
  grows := hgrows.prefix_events
  advance h := by
    rw [hr] at h
    cases h
  inside _ := hgrows
  next _ h := by
    rw [hr] at h
    cases h
  follow _ h := absurd h hcb
  outside _ h := absurd h hcb

theorem value_turn (beyond : Nat → UInt8) (cb : PostDataParserAppCb σ) (boundary : List UInt8)
    (hi : s.i < buf.length)
    (hscan : scanNext boundary buf s.lastItemType s.i
      = (memmem (buf.drop s.i) boundary).map fun k => (.boundary, s.i + k + (boundary.length + 1)))
    (hbad : BadAt boundary buf s.lastItemType s.i ↔
      ∃ k, memmem (buf.drop s.i) boundary = some k ∧ s.i + k + boundary.length = buf.length) :
    TurnSpec cb boundary buf s
      (match memmem (buf.drop s.i) boundary with
      | some k =>
        andThen (consumeItem beyond buf cb (s.read s.i (buf.length - s.i)) .value k) fun s =>
          consumeItem beyond buf cb s .boundary ((boundary.length : Int) + 1)
      | none =>
        andThen (consumeItem beyond buf cb (s.read s.i (buf.length - s.i)) .value
          ((buf.length : Int) - s.i))
          fun s => (.ok, s)) ∧
    (memmem (buf.drop s.i) boundary = some 0 → TurnSpec cb boundary buf s
      (consumeItem beyond buf cb (s.read s.i (buf.length - s.i)) .boundary
        ((boundary.length : Int) + 1))) := by
  have hgrows : Grows buf.length s (s.read s.i (buf.length - s.i)) := Grows.read s (by omega)
  have hs₀ : (s.read s.i (buf.length - s.i)).i = s.i := rfl
  cases hk : memmem (buf.drop s.i) boundary with
  | none =>
    rw [hk] at hscan hbad
    have hgood : ¬ BadAt boundary buf s.lastItemType s.i := fun h => by
      obtain ⟨k, hsome, -⟩ := hbad.mp h
      cases hsome
    refine ⟨?_, fun h => by cases h⟩
    have hitem : ItemTurn cb buf.length s .value buf.length
        (consumeItem beyond buf cb (s.read s.i (buf.length - s.i)) .value
          ((buf.length : Int) - s.i)) :=
      (consumeItem2_item _ (by omega) (by omega) (by omega)).of_grows hgrows
    dsimp only
    rcases hitem.outcome with ⟨hn, -, -⟩ | hf
    · rw [andThen_next hn]
      exact .stop nofun hitem.grows hscan hgood
    · rw [andThen_stop (by rw [hf]; exact nofun)]
      exact .stop (by rw [hf]; exact nofun) hitem.grows hscan hgood
  | some k =>
    obtain ⟨hle, hpre, -⟩ := findInfix_eq_some_iff.mp hk
    have hlen := hpre.length_le
    rw [List.length_drop] at hle
    rw [List.length_drop, List.length_drop] at hlen
    rw [hk] at hscan hbad
    have hbad' : BadAt boundary buf s.lastItemType s.i ↔
        s.i + k + boundary.length = buf.length := by
      rw [hbad]
      refine ⟨?_, fun h => ⟨k, rfl, h⟩⟩
      rintro ⟨k', hk', h⟩
      obtain rfl := Option.some.inj hk'
      exact h
    refine ⟨?_, fun h => ?_⟩
    · have hitem : ItemTurn cb buf.length s .value (s.i + k)
          (consumeItem beyond buf cb (s.read s.i (buf.length - s.i)) .value k) :=
        (consumeItem2_item _ (by omega) (by omega) (by omega)).of_grows hgrows
      dsimp only
      rcases hitem.outcome with ⟨hn, -, hi'⟩ | hf
      · rw [andThen_next hn]
        exact boundary_turn _ hi' hitem.grows hscan (by omega) hbad'
      · have hcb : ¬ ∀ a e b, (cb a e b).1 = 0 := fun hcb => by
          have := hitem.accepted hcb
          rw [hf] at this
          cases this
        rw [andThen_stop (by rw [hf]; exact nofun)]
        exact .refused hf hitem.grows hcb
    · obtain rfl := Option.some.inj h
      exact boundary_turn (k := 0) _ hs₀ hgrows hscan (by omega) hbad'

theorem contentType_turn (s₀ : PdpState σ) (hs₀ : s₀.i = s.i) (hgrows : s.events <+: s₀.events)
    (hi : s.i < buf.length) (hbad : BadAt boundary buf s.lastItemType s.i) :
    TurnSpec cb boundary buf s
      (match memmem (readBytes beyond buf (s₀.i + (contentTypePrefix.length + 1))
        (buf.length - s₀.i)) crlf with
      | none => (.exx, s₀.read (s₀.i + (contentTypePrefix.length + 1)) (buf.length - s₀.i))
      | some k =>
        consumeItem2 beyond buf cb (s₀.read (s₀.i + (contentTypePrefix.length + 1))
          (buf.length - s₀.i))
          .contentType (((s₀.i + (contentTypePrefix.length + 1) : Nat) : Int) + k - s₀.i)
          (s₀.i + contentTypePrefix.length)
          (((s₀.i + (contentTypePrefix.length + 1) : Nat) : Int) + k - s₀.i -
            contentTypePrefix.length)) := by
  have hout : ¬ (PdpEvent.read (s₀.i + (contentTypePrefix.length + 1)) (buf.length - s₀.i)).Inside
      buf.length := by
    show ¬ s₀.i + (contentTypePrefix.length + 1) + (buf.length - s₀.i) ≤ buf.length
    omega
  have hread : s.events <+:
      (s₀.read (s₀.i + (contentTypePrefix.length + 1)) (buf.length - s₀.i)).events :=
    hgrows.trans (List.prefix_append _ _)
  have hmem : .read (s₀.i + (contentTypePrefix.length + 1)) (buf.length - s₀.i)
      ∈ (s₀.read (s₀.i + (contentTypePrefix.length + 1)) (buf.length - s₀.i)).events :=
    List.mem_append_right _ (List.mem_singleton_self _)
  split
  next => exact .bad hread (fun h => by cases h) (fun _ => ⟨_, hmem, hout⟩) hbad
  next k _ =>
    obtain ⟨bytes, hevents, houtcome, -⟩ := consumeItem2_called beyond buf cb
      (s₀.read (s₀.i + (contentTypePrefix.length + 1)) (buf.length - s₀.i)) .contentType
      (s₀.i + contentTypePrefix.length)
      (((s₀.i + (contentTypePrefix.length + 1) : Nat) : Int) + k - s₀.i)
      (((s₀.i + (contentTypePrefix.length + 1) : Nat) : Int) + k - s₀.i - contentTypePrefix.length)
      (i := s₀.i + (contentTypePrefix.length + 1) + k)
      (by show (s₀.i : Int) + _ = _; omega)
    refine .bad (hread.trans ⟨_, hevents.symm⟩) (fun hr => ?_)
      (fun _ => ⟨_, hevents.symm ▸ List.mem_append_left _ hmem, hout⟩) hbad
    rcases houtcome with ⟨-, -, hi'⟩ | hf
    · rw [hi']
      omega
    · rw [hf] at hr
      cases hr

theorem turnSpec_boundary (beyond : Nat → UInt8) (cb : PostDataParserAppCb σ)
    (boundary : List UInt8) (hi : s.i < buf.length) (hlast : s.lastItemType = .boundary) :
    TurnSpec cb boundary buf s (pdpTurn beyond buf cb boundary s) := by
  have hgood : ¬ BadAt boundary buf s.lastItemType s.i := by rw [hlast]; exact id
  have hscan : scanNext boundary buf s.lastItemType s.i
      = if contentDfd <+: buf.drop s.i then some (.contentFormData, s.i + contentDfd.length)
        else none := by
    rw [hlast]
    rfl
  obtain ⟨s₀, hlook, hs₀, hgrows⟩ := looksAt_text beyond buf contentDfd s hi.le
  unfold pdpTurn
  rw [hlast]
  dsimp only
  rw [hlook]
  dsimp only
  split
  next hfound =>
    have hpre := of_decide_eq_true hfound
    rw [if_pos hpre] at hscan
    exact .item (consumeItem_text s₀ hs₀ hgrows hpre hi.le) hscan
      (Nat.lt_add_of_pos_right (by decide)) hgood
  next hno =>
    rw [if_neg (mt decide_eq_true hno)] at hscan
    split
    next hfinish =>
      refine .stop nofun (hgrows.trans ⟨_, rfl, fun ev hev => ?_⟩) hscan hgood
      rw [List.mem_singleton.mp hev]
      exact ⟨by decide, by omega⟩
    next => exact .stop nofun hgrows hscan hgood

theorem turnSpec_contentFormData (beyond : Nat → UInt8) (cb : PostDataParserAppCb σ)
    (boundary : List UInt8) (hi : s.i < buf.length) (hlast : s.lastItemType = .contentFormData) :
    TurnSpec cb boundary buf s (pdpTurn beyond buf cb boundary s) := by
  have hgood : ¬ BadAt boundary buf s.lastItemType s.i := by rw [hlast]; exact id
  have hscan : scanNext boundary buf s.lastItemType s.i
      = if nameS <+: buf.drop s.i then scanQuote buf .name (s.i + nameS.length) else none := by
    rw [hlast]
    rfl
  obtain ⟨s₀, hlook, hs₀, hgrows⟩ := looksAt_text beyond buf nameS s hi.le
  unfold pdpTurn
  rw [hlast]
  dsimp only
  rw [hlook]
  dsimp only
  split
  next hfound =>
    rw [if_pos (of_decide_eq_true hfound)] at hscan
    exact quoted_turn (by decide) s₀ hs₀ hgrows hscan hgood
  next hno =>
    rw [if_neg (mt decide_eq_true hno)] at hscan
    exact .stop nofun hgrows hscan hgood

theorem turnSpec_name (beyond : Nat → UInt8) (cb : PostDataParserAppCb σ) (boundary : List UInt8)
    (hi : s.i < buf.length) (hlast : s.lastItemType = .name) :
    TurnSpec cb boundary buf s (pdpTurn beyond buf cb boundary s) := by
  have hgood : ¬ BadAt boundary buf s.lastItemType s.i := by rw [hlast]; exact id
  have hscan : scanNext boundary buf s.lastItemType s.i
      = if fnameS <+: buf.drop s.i then scanQuote buf .filename (s.i + fnameS.length)
        else if emptyLine <+: buf.drop s.i then some (.emptyLine, s.i + emptyLine.length)
        else none := by
    rw [hlast]
    rfl
  obtain ⟨s₀, hlook, hs₀, hgrows⟩ := looksAt_text beyond buf fnameS s hi.le
  unfold pdpTurn
  rw [hlast]
  dsimp only
  rw [hlook]
  dsimp only
  split
  next hfound =>
    rw [if_pos (of_decide_eq_true hfound)] at hscan
    exact quoted_turn (by decide) s₀ hs₀ hgrows hscan hgood
  next hno =>
    rw [if_neg (mt decide_eq_true hno)] at hscan
    exact emptyLine_turn beyond cb s₀ hs₀ hgrows hi.le hscan hgood

theorem turnSpec_filename (beyond : Nat → UInt8) (cb : PostDataParserAppCb σ)
    (boundary : List UInt8) (hi : s.i < buf.length) (hlast : s.lastItemType = .filename) :
    TurnSpec cb boundary buf s (pdpTurn beyond buf cb boundary s) := by
  have hbad : BadAt boundary buf s.lastItemType s.i ↔
      contentTypePrefix.length + 2 ≤ buf.length - s.i ∧ contentTypePrefix <+: buf.drop s.i := by
    rw [hlast]
    rfl
  obtain ⟨s₀, hlook, hs₀, hgrows⟩ := looksAt_grows beyond buf contentTypePrefix s hi.le
    (Nat.le_add_right _ 2)
  unfold pdpTurn
  rw [hlast]
  dsimp only
  rw [hlook]
  dsimp only
  split
  next hfound =>
    exact contentType_turn s₀ hs₀ hgrows.prefix_events hi (hbad.mpr (of_decide_eq_true hfound))
  next hno =>
    exact .stop nofun hgrows (by rw [hlast]; rfl) fun hb => hno (decide_eq_true (hbad.mp hb))

theorem turnSpec_contentType (beyond : Nat → UInt8) (cb : PostDataParserAppCb σ)
    (boundary : List UInt8) (hi : s.i < buf.length) (hlast : s.lastItemType = .contentType) :
    TurnSpec cb boundary buf s (pdpTurn beyond buf cb boundary s) := by
  have hgood : ¬ BadAt boundary buf s.lastItemType s.i := by rw [hlast]; exact id
  have hscan : scanNext boundary buf s.lastItemType s.i
      = if emptyLine <+: buf.drop s.i then some (.emptyLine, s.i + emptyLine.length) else none := by
    rw [hlast]
    rfl
  unfold pdpTurn
  rw [hlast]
  exact emptyLine_turn beyond cb s rfl (Grows.refl s) hi.le hscan hgood

theorem turnSpec_emptyLine (beyond : Nat → UInt8) (cb : PostDataParserAppCb σ)
    (boundary : List UInt8) (hi : s.i < buf.length) (hlast : s.lastItemType = .emptyLine) :
    TurnSpec cb boundary buf s (pdpTurn beyond buf cb boundary s) := by
  have hvalue := (value_turn beyond cb boundary hi (by rw [hlast]; rfl)
    (by rw [hlast]; rfl)).1
  unfold pdpTurn
  rw [hlast]
  dsimp only
  rw [readBytes_rest beyond hi.le]
  exact hvalue

theorem turnSpec_value (beyond : Nat → UInt8) (cb : PostDataParserAppCb σ) (boundary : List UInt8)
    (hi : s.i < buf.length) (hlast : s.lastItemType = .value) :
    TurnSpec cb boundary buf s (pdpTurn beyond buf cb boundary s) := by
  have hvalue := value_turn beyond cb boundary hi (by rw [hlast]; rfl)
    (by rw [hlast]; rfl)
  unfold pdpTurn
  rw [hlast]
  dsimp only
  rw [readBytes_rest beyond hi.le]
  cases hk : memmem (buf.drop s.i) boundary with
  | none =>
    rw [hk] at hvalue
    exact hvalue.1
  | some k =>
    cases k with
    | zero => exact hvalue.2 hk
    | succ k =>
      rw [hk] at hvalue
      exact hvalue.1

/-- **一回りは、外に出る所でなければ buffer の中を見て渡し、断られなければ次へ進む。** -/
theorem pdpTurn_spec (beyond : Nat → UInt8) (cb : PostDataParserAppCb σ) (boundary : List UInt8)
    (hi : s.i < buf.length) : TurnSpec cb boundary buf s (pdpTurn beyond buf cb boundary s) := by
  have hstop : ∀ n : PdpNext, n ≠ .next → pdpTurn beyond buf cb boundary s = (n, s) →
      scanNext boundary buf s.lastItemType s.i = none → ¬ BadAt boundary buf s.lastItemType s.i →
      TurnSpec cb boundary buf s (pdpTurn beyond buf cb boundary s) := by
    intro n hn hturn hnone hgood
    rw [hturn]
    exact .stop hn (Grows.refl s) hnone hgood
  cases hlast : s.lastItemType with
  | void =>
    exact hstop .exx nofun (by unfold pdpTurn; rw [hlast]) (by rw [hlast]; rfl)
      (by rw [hlast]; exact id)
  | error =>
    exact hstop .fail nofun (by unfold pdpTurn; rw [hlast]) (by rw [hlast]; rfl)
      (by rw [hlast]; exact id)
  | finish =>
    exact hstop .fail nofun (by unfold pdpTurn; rw [hlast]) (by rw [hlast]; rfl)
      (by rw [hlast]; exact id)
  | boundary => exact turnSpec_boundary beyond cb boundary hi hlast
  | contentFormData => exact turnSpec_contentFormData beyond cb boundary hi hlast
  | name => exact turnSpec_name beyond cb boundary hi hlast
  | filename => exact turnSpec_filename beyond cb boundary hi hlast
  | contentType => exact turnSpec_contentType beyond cb boundary hi hlast
  | emptyLine => exact turnSpec_emptyLine beyond cb boundary hi hlast
  | value => exact turnSpec_value beyond cb boundary hi hlast

/-! ## loop -/

theorem ScanSafe.next {p p' : Nat} (h : ScanSafe boundary buf e p) (hp : p < buf.length)
    (hnext : scanNext boundary buf e p = some (e', p')) : ScanSafe boundary buf e' p' :=
  fun e'' p'' hscan => h e'' p'' (.step hp hnext hscan)

theorem pdpLoop_turn (beyond : Nat → UInt8) (cb : PostDataParserAppCb σ) (boundary : List UInt8)
    (fuel : Nat) (hi : s.i < buf.length) :
    (pdpTurn beyond buf cb boundary s).1 = .next ∧ pdpLoop beyond buf cb boundary (fuel + 1) s
        = pdpLoop beyond buf cb boundary fuel (pdpTurn beyond buf cb boundary s).2 ∨
      (pdpTurn beyond buf cb boundary s).1 ≠ .next ∧ pdpLoop beyond buf cb boundary (fuel + 1) s
        = some (pdpTurn beyond buf cb boundary s) := by
  rw [pdpLoop, if_pos hi]
  generalize pdpTurn beyond buf cb boundary s = t
  obtain ⟨n, s'⟩ := t
  cases n with
  | next => exact .inl ⟨rfl, rfl⟩
  | ok => exact .inr ⟨(fun h => by cases h), rfl⟩
  | exx => exact .inr ⟨(fun h => by cases h), rfl⟩
  | fail => exact .inr ⟨(fun h => by cases h), rfl⟩
  | finish => exact .inr ⟨(fun h => by cases h), rfl⟩

theorem pdpLoop_ends (beyond : Nat → UInt8) (cb : PostDataParserAppCb σ) (boundary : List UInt8) :
    ∀ (fuel : Nat) {s : PdpState σ}, buf.length - s.i ≤ fuel →
      ∃ r, pdpLoop beyond buf cb boundary fuel s = some r ∧ s.events <+: r.2.events
  | 0, s, hfuel => ⟨_, pdpLoop_end boundary 0 (by omega), List.prefix_rfl⟩
  | fuel + 1, s, hfuel => by
    by_cases hi : s.i < buf.length
    · have hspec := pdpTurn_spec beyond cb boundary hi
      rcases pdpLoop_turn beyond cb boundary fuel hi with ⟨hn, hrun⟩ | ⟨-, hrun⟩
      · have hadvance := hspec.advance hn
        obtain ⟨r, hr, hgrows⟩ := pdpLoop_ends beyond cb boundary fuel
          (show buf.length - (pdpTurn beyond buf cb boundary s).2.i ≤ fuel by omega)
        exact ⟨r, hrun.trans hr, hspec.grows.trans hgrows⟩
      · exact ⟨_, hrun, hspec.grows⟩
    · exact ⟨_, pdpLoop_end boundary _ (by omega), List.prefix_rfl⟩

/-- **外に出る所に着かなければ、loop は buffer の中だけを見て渡す。** -/
theorem pdpLoop_safe (beyond : Nat → UInt8) (cb : PostDataParserAppCb σ) (boundary : List UInt8) :
    ∀ (fuel : Nat) {s : PdpState σ}, buf.length - s.i ≤ fuel →
      ScanSafe boundary buf s.lastItemType s.i →
      ∃ r, pdpLoop beyond buf cb boundary fuel s = some r ∧ Grows buf.length s r.2
  | 0, s, hfuel, _ => ⟨_, pdpLoop_end boundary 0 (by omega), Grows.refl s⟩
  | fuel + 1, s, hfuel, hsafe => by
    by_cases hi : s.i < buf.length
    · have hspec := pdpTurn_spec beyond cb boundary hi
      have hgood := hsafe _ _ (.refl _ _) hi
      rcases pdpLoop_turn beyond cb boundary fuel hi with ⟨hn, hrun⟩ | ⟨-, hrun⟩
      · have hadvance := hspec.advance hn
        obtain ⟨r, hr, hgrows⟩ := pdpLoop_safe beyond cb boundary fuel
          (show buf.length - (pdpTurn beyond buf cb boundary s).2.i ≤ fuel by omega)
          (hsafe.next hi (hspec.next hgood hn))
        exact ⟨r, hrun.trans hr, (hspec.inside hgood).trans hgrows⟩
      · exact ⟨_, hrun, hspec.inside hgood⟩
    · exact ⟨_, pdpLoop_end boundary _ (by omega), Grows.refl s⟩

theorem pdpLoop_bad (beyond : Nat → UInt8) (hcb : ∀ a e b, (cb a e b).1 = 0) {fuel : Nat}
    (hfuel : buf.length - s.i ≤ fuel) (hi : s.i < buf.length)
    (hbad : BadAt boundary buf s.lastItemType s.i) :
    ∃ r, pdpLoop beyond buf cb boundary fuel s = some r ∧
      ∃ ev ∈ r.2.events, ¬ ev.Inside buf.length := by
  have hspec := pdpTurn_spec beyond cb boundary hi
  obtain ⟨ev, hev, hout⟩ := hspec.outside hbad hcb
  obtain ⟨fuel, rfl⟩ : ∃ m, fuel = m + 1 := ⟨fuel - 1, by omega⟩
  rcases pdpLoop_turn beyond cb boundary fuel hi with ⟨hn, hrun⟩ | ⟨-, hrun⟩
  · have hadvance := hspec.advance hn
    obtain ⟨r, hr, hgrows⟩ := pdpLoop_ends beyond cb boundary fuel
      (show buf.length - (pdpTurn beyond buf cb boundary s).2.i ≤ fuel by omega)
    exact ⟨r, hrun.trans hr, ev, hgrows.mem hev, hout⟩
  · exact ⟨_, hrun, ev, hev, hout⟩

/-- **外に出る所に着けば、断らない callback では、外を見るか渡す。** -/
theorem pdpLoop_outside (beyond : Nat → UInt8) (hcb : ∀ a e b, (cb a e b).1 = 0) {p p' : Nat}
    (hscan : ScansTo boundary buf e p e' p') (hp' : p' < buf.length)
    (hbad : BadAt boundary buf e' p') :
    ∀ {fuel : Nat} {s : PdpState σ}, s.lastItemType = e → s.i = p → buf.length - s.i ≤ fuel →
      ∃ r, pdpLoop beyond buf cb boundary fuel s = some r ∧
        ∃ ev ∈ r.2.events, ¬ ev.Inside buf.length := by
  induction hscan with
  | refl e p =>
    rintro fuel s rfl rfl hfuel
    exact pdpLoop_bad beyond hcb hfuel hp' hbad
  | step hp hnext _ ih =>
    rintro fuel s rfl rfl hfuel
    -- 途中の所で既に外に出ていれば、そこまででよい
    by_cases hbad' : BadAt boundary buf s.lastItemType s.i
    · exact pdpLoop_bad beyond hcb hfuel hp hbad'
    · have hspec := pdpTurn_spec beyond cb boundary hp
      have hn := hspec.follow hbad' hcb (by rw [hnext]; exact nofun)
      have hto := hspec.next hbad' hn
      rw [hnext] at hto
      obtain ⟨he, hi⟩ := Prod.mk.inj (Option.some.inj hto)
      have hadvance := hspec.advance hn
      obtain ⟨fuel, rfl⟩ : ∃ m, fuel = m + 1 := ⟨fuel - 1, by omega⟩
      rcases pdpLoop_turn beyond cb boundary fuel hp with ⟨-, hrun⟩ | ⟨hne, -⟩
      · rw [hrun]
        exact ih hp' hbad he.symm hi.symm (by omega)
      · exact absurd hn hne

/-! ## `post_data_parser` -/

theorem pdpReturn_inside (cb : PostDataParserAppCb σ) (ctx : PostDataCtx)
    (t : PdpNext × PdpState σ) :
    (∀ ev ∈ (pdpReturn cb ctx t).events, ev.Inside n) ↔ ∀ ev ∈ t.2.events, ev.Inside n := by
  obtain ⟨m, s⟩ := t
  cases m with
  | exx =>
    refine ⟨fun h ev hev => h ev (List.mem_append_left _ hev), fun h ev hev => ?_⟩
    rcases List.mem_append.mp hev with hev | hev
    · exact h ev hev
    · rw [List.mem_singleton.mp hev]
      rfl
  | next => exact Iff.rfl
  | ok => exact Iff.rfl
  | fail => exact Iff.rfl
  | finish => exact Iff.rfl

theorem Grows.inside (h : Grows n s s') (hs : ∀ ev ∈ s.events, ev.Inside n) :
    ∀ ev ∈ s'.events, ev.Inside n := by
  obtain ⟨new, he, hnew⟩ := h
  intro ev hev
  rw [he] at hev
  rcases List.mem_append.mp hev with hev | hev
  · exact hs ev hev
  · exact hnew ev hev

theorem firstLine_item (beyond : Nat → UInt8) (cb : PostDataParserAppCb σ) (hloc : LineLocated buf)
    (app : σ) :
    ItemTurn cb buf.length ⟨.void, 0, app, [.read 0 (min pdpBoundaryMax buf.length)]⟩ .boundary
      (firstLine buf).length
      (consumeItem2 beyond buf cb ⟨.void, 0, app, [.read 0 (min pdpBoundaryMax buf.length)]⟩
        .boundary (((firstLine buf).length - 1 : Nat) + 1) 0
        (((firstLine buf).length - 1 : Nat) + 1)) := by
  have hlower := hloc.1.lower
  have hle := firstLine_le buf
  exact consumeItem2_item _ (by omega) (by omega) (show (0 : Int) + _ = _ by omega)

/-- **読み始めから外に出る所に着かなければ、終わり、buffer の中だけを見て渡す。** -/
theorem postDataParser_inside (beyond : Nat → UInt8) (cb : PostDataParserAppCb σ)
    {ctx : PostDataCtx}
    (app : σ) (hsafe : ChunkSafe ctx buf) :
    ∃ r, postDataParser beyond buf cb ctx app = some r ∧ ∀ ev ∈ r.events, ev.Inside buf.length := by
  unfold ChunkSafe at hsafe
  by_cases hvoid : ctx.lastItemType = .void
  · rw [if_pos hvoid] at hsafe
    have hfirst : (PdpEvent.read 0 (min pdpBoundaryMax buf.length)).Inside buf.length :=
      (Nat.zero_add _).trans_le (Nat.min_le_right _ _)
    have hstart : ∀ ev ∈ [PdpEvent.read 0 (min pdpBoundaryMax buf.length)], ev.Inside buf.length :=
      fun ev hev => by rw [List.mem_singleton.mp hev]; exact hfirst
    by_cases hloc : LineLocated buf
    · have hitem := firstLine_item beyond cb hloc app
      rw [postDataParser_void beyond buf cb hvoid hloc]
      have hin := hitem.grows.inside hstart
      generalize consumeItem2 beyond buf cb _ PostEt.boundary _ _ _ = t at hitem hin ⊢
      obtain ⟨m, s⟩ := t
      rcases hitem.outcome with ⟨hm, hlast, hi⟩ | hm
      · cases hm
        obtain ⟨r, hr, hgrows⟩ := pdpLoop_safe beyond cb (delimiter (firstLine buf)) buf.length
          (Nat.sub_le buf.length s.i) (by rw [hlast, hi]; exact hsafe hloc)
        exact ⟨_, congrArg (Option.map _) hr, (pdpReturn_inside cb _ r).mpr (hgrows.inside hin)⟩
      · cases hm
        exact ⟨_, rfl, hin⟩
    · unfold postDataParser
      rw [if_pos hvoid]
      dsimp only
      rw [if_pos (not_not.mp (mt lineLocated_iff.mpr hloc))]
      exact ⟨_, rfl, hstart⟩
  · rw [if_neg hvoid] at hsafe
    unfold postDataParser
    rw [if_neg hvoid]
    dsimp only
    obtain ⟨r, hr, hgrows⟩ := pdpLoop_safe beyond cb ctx.boundary buf.length
      (Nat.sub_le buf.length 0)
      (s := ⟨ctx.lastItemType, 0, app, []⟩) hsafe
    exact ⟨_, congrArg (Option.map _) hr,
      (pdpReturn_inside cb _ r).mpr (hgrows.inside (List.forall_mem_nil _))⟩

theorem exists_bad_of_not_scanSafe {p : Nat} (h : ¬ ScanSafe boundary buf e p) :
    ∃ e' p', ScansTo boundary buf e p e' p' ∧ p' < buf.length ∧ BadAt boundary buf e' p' := by
  by_contra hno
  exact h fun e' p' hscan hp hbad => hno ⟨e', p', hscan, hp, hbad⟩

/-- **読み始めから外に出る所に着けば、断らない callback では、外を見るか渡す。** -/
theorem postDataParser_outside (beyond : Nat → UInt8) (cb : PostDataParserAppCb σ)
    (hcb : ∀ a e b, (cb a e b).1 = 0) {ctx : PostDataCtx} (app : σ) (hsafe : ¬ ChunkSafe ctx buf) :
    ∃ r, postDataParser beyond buf cb ctx app = some r ∧
      ∃ ev ∈ r.events, ¬ ev.Inside buf.length := by
  have hout : ∀ (ctx : PostDataCtx) (r : PdpNext × PdpState σ),
      (∃ ev ∈ r.2.events, ¬ ev.Inside buf.length) →
      ∃ ev ∈ (pdpReturn cb ctx r).events, ¬ ev.Inside buf.length := by
    intro ctx r hr
    by_contra hno
    push Not at hno
    obtain ⟨ev, hev, hev'⟩ := hr
    exact hev' ((pdpReturn_inside cb ctx r).mp hno ev hev)
  unfold ChunkSafe at hsafe
  by_cases hvoid : ctx.lastItemType = .void
  · rw [if_pos hvoid, Classical.not_imp] at hsafe
    obtain ⟨hloc, hscan⟩ := hsafe
    obtain ⟨e', p', hscan, hp, hbad⟩ := exists_bad_of_not_scanSafe hscan
    have hitem := firstLine_item beyond cb hloc app
    rw [postDataParser_void beyond buf cb hvoid hloc]
    have hn := hitem.accepted hcb
    generalize consumeItem2 beyond buf cb _ PostEt.boundary _ _ _ = t at hitem hn ⊢
    obtain ⟨m, s⟩ := t
    cases hn
    rcases hitem.outcome with ⟨-, hlast, hi⟩ | hm
    · obtain ⟨r, hr, hev⟩ := pdpLoop_outside beyond hcb hscan hp hbad hlast hi
        (Nat.sub_le buf.length s.i)
      exact ⟨_, congrArg (Option.map _) hr, hout _ r hev⟩
    · cases hm
  · rw [if_neg hvoid] at hsafe
    obtain ⟨e', p', hscan, hp, hbad⟩ := exists_bad_of_not_scanSafe hsafe
    unfold postDataParser
    rw [if_neg hvoid]
    dsimp only
    obtain ⟨r, hr, hev⟩ := pdpLoop_outside beyond hcb hscan hp hbad
      (s := ⟨ctx.lastItemType, 0, app, []⟩) rfl rfl (Nat.sub_le buf.length 0)
    exact ⟨_, congrArg (Option.map _) hr, hout _ r hev⟩

end

/-! ## 範囲が buffer の中であるとき -/

/-- **どの callback でも終わり、buffer の中だけを見て渡すのは、外に出る所に着かないときに限る。** -/
theorem post_inside_iff (ctx : PostDataCtx) (chunk : List UInt8) :
    (∀ (σ : Type) (beyond : Nat → UInt8) (cb : PostDataParserAppCb σ) (app : σ),
      ∃ r, postDataParser beyond chunk cb ctx app = some r ∧
        ∀ ev ∈ r.events, ev.Inside chunk.length) ↔
    ChunkSafe ctx chunk := by
  refine ⟨fun h => ?_, fun hsafe _ beyond cb app => postDataParser_inside beyond cb app hsafe⟩
  by_contra hsafe
  obtain ⟨r, hr, hin⟩ := h Unit (fun _ => 0) (fun _ _ _ => (0, ())) ()
  obtain ⟨r', hr', ev, hev, hout⟩ := postDataParser_outside (fun _ => 0)
    (fun (_ : Unit) _ _ => (0, ())) (fun _ _ _ => rfl) () hsafe
  rw [hr] at hr'
  obtain rfl := Option.some.inj hr'
  exact hout (hin ev hev)

def typedUpload : List UInt8 :=
  [45, 45, 97, 98] ++ contentDfd ++ nameS ++ [110, 34] ++ fnameS ++ [102, 34] ++
    contentTypePrefix ++ [97, 47, 98] ++ emptyLine ++ [120] ++
    [13, 10, 45, 45, 97, 98] ++ finishMark

/-- 整った本体でも、型の行があれば、行の終わりを buffer の外まで探す。 -/
theorem typed_upload_reads_past : ¬ ∀ (σ : Type) (beyond : Nat → UInt8) (cb : PostDataParserAppCb σ)
    (app : σ), ∃ r, postDataParser beyond typedUpload cb .init app = some r ∧
      ∀ ev ∈ r.events, ev.Inside typedUpload.length := by
  intro h
  have hline : firstLine typedUpload = [45, 45, 97, 98] := by
    decide +kernel
  have hloc : LineLocated typedUpload := by
    unfold LineLocated
    rw [hline]
    exact ⟨⟨by decide, by decide, by decide⟩, by decide⟩
  have hbad : ¬ ChunkSafe .init typedUpload := by
    unfold ChunkSafe
    rw [if_pos (show PostDataCtx.init.lastItemType = .void from rfl), hline]
    intro hsafe
    have hboundary : scanNext (delimiter [45, 45, 97, 98]) typedUpload .boundary 4
        = some (.contentFormData, 37) := by decide
    have hname : scanNext (delimiter [45, 45, 97, 98]) typedUpload .contentFormData 37
        = some (.name, 46) := by decide
    have hfilename : scanNext (delimiter [45, 45, 97, 98]) typedUpload .name 46
        = some (.filename, 60) := by decide
    exact hsafe hloc .filename 60 (.step (by decide) hboundary (.step (by decide) hname
      (.step (by decide) hfilename (.refl _ _)))) (by decide) ⟨by decide, by decide⟩
  obtain ⟨r, hr, hin⟩ := h Unit (fun _ => 0) (fun _ _ _ => (0, ())) ()
  obtain ⟨r', hr', ev, hev, hout⟩ := postDataParser_outside (fun _ => 0)
    (fun (_ : Unit) _ _ => (0, ())) (fun _ _ _ => rfl) () hbad
  rw [hr] at hr'
  obtain rfl := Option.some.inj hr'
  exact hout (hin ev hev)

end Esq
