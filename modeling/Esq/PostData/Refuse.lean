import Esq.PostData.RoundTrip

/-!
# 断ることのある callback

callback が 0 でない値を返せば、`post_data_parser` はそこで -1 を返す。いつも 0 を返し、断ったことだけを覚える
callback を代わりに渡せば、断るまでは同じように進む。その callback の状態は、渡った要素の列だけで決まる。
-/

namespace Esq

universe u

/-! ## 一回りの計画 -/

/-- 一回りでする事。どれも callback に依らず、`offset` は `s.i` から数える。 -/
inductive PdpPlan where
  | stop (t : PdpNext)
  | finish
  | read (offset len : Nat) (rest : PdpPlan)
  | item (etype : PostEt) (offset : Nat) (len vlen : Int) (he : etype ≠ .finish ∧ etype ≠ .error)
      (rest : PdpPlan)

section

variable {σ : Type u} (beyond : Nat → UInt8) (buf : List UInt8) (cb : PostDataParserAppCb σ)

def PdpPlan.run : PdpPlan → PdpState σ → PdpNext × PdpState σ
  | .stop t, s => (t, s)
  | .finish, s => (.finish, (s.call beyond buf cb .finish s.i 4).2)
  | .read offset len rest, s => rest.run (s.read (s.i + offset) len)
  | .item etype offset len vlen _ rest, s =>
    andThen (consumeItem2 beyond buf cb s etype len (s.i + offset) vlen) rest.run

end

def feed {σ : Type u} (cb : PostDataParserAppCb σ) (app : σ) (es : List PostElement) : σ :=
  es.foldl (fun a x => (cb a x.etype x.bytes).2) app

/--
断ったことを覚えて、いつも 0 を返す callback。終わりの印と `ERROR` への答えは、`post_data_parser` も見ない。
-/
def latched {σ : Type u} (cb : PostDataParserAppCb σ) : PostDataParserAppCb
    (Bool × σ) := fun a e b =>
  if a.1 then (0, a)
  else (0, decide ((cb a.2 e b).1 ≠ 0 ∧ e ≠ .finish ∧ e ≠ .error), (cb a.2 e b).2)

section

variable {σ : Type u} {beyond : Nat → UInt8} {buf boundary : List UInt8}
  {cb : PostDataParserAppCb σ}

theorem andThen_next_eq (r : PdpNext × PdpState σ) : andThen r (fun s => (.next, s)) = r := by
  obtain ⟨t, s⟩ := r
  cases t <;> rfl

theorem PdpPlan.run_item {e : PostEt} (he : e ≠ .finish ∧ e ≠ .error) (offset : Nat)
    (len vlen : Int)
    (s : PdpState σ) :
    consumeItem2 beyond buf cb s e len (s.i + offset) vlen
      = (PdpPlan.item e offset len vlen he (.stop .next)).run beyond buf cb s :=
  (andThen_next_eq _).symm

theorem looksAt_plan (beyond : Nat → UInt8) (buf : List UInt8) (least : Nat) (text : List UInt8)
    (i : Nat) :
    ∃ b, ∀ rest : PdpPlan, ∃ p : PdpPlan, ∀ {σ : Type u} (cb : PostDataParserAppCb σ)
      (s : PdpState σ),
      s.i = i → ∃ s₀, looksAt beyond buf s least text = (b, s₀) ∧ s₀.i = i ∧
        rest.run beyond buf cb s₀ = p.run beyond buf cb s := by
  by_cases hle : least ≤ buf.length - i
  · refine ⟨decide (readBytes beyond buf i text.length = text),
    fun rest => ⟨.read 0 text.length rest, ?_⟩⟩
    rintro σ cb s rfl
    refine ⟨s.read s.i text.length, ?_, rfl, rfl⟩
    unfold looksAt
    rw [if_pos hle]
  · refine ⟨false, fun rest => ⟨rest, ?_⟩⟩
    rintro σ cb s rfl
    refine ⟨s, ?_, rfl, rfl⟩
    unfold looksAt
    rw [if_neg hle]

theorem looksAt_branch (beyond : Nat → UInt8) (buf : List UInt8) (least : Nat) (text : List UInt8)
    (i : Nat)
    (q r : PdpPlan) :
    ∃ p : PdpPlan, ∀ {σ : Type u} (cb : PostDataParserAppCb σ) (s : PdpState σ), s.i = i →
      ∃ b s₀, looksAt beyond buf s least text = (b, s₀) ∧ s₀.i = i ∧
        p.run beyond buf cb s = (if b then q else r).run beyond buf cb s₀ := by
  obtain ⟨b, h⟩ := looksAt_plan.{u} beyond buf least text i
  obtain ⟨p, hp⟩ := h (if b then q else r)
  refine ⟨p, fun cb s hi => ?_⟩
  obtain ⟨s₀, hlook, hi₀, hrun⟩ := hp cb s hi
  exact ⟨b, s₀, hlook, hi₀, hrun.symm⟩

def PdpPlan.value (boundary : List UInt8) (rest : Int) : Option Nat → PdpPlan
  | some k =>
    .item .value 0 k k (by decide)
      (.item .boundary 0 (boundary.length + 1) (boundary.length + 1) (by decide) (.stop .next))
  | none => .item .value 0 rest rest (by decide) (.stop .ok)

theorem PdpPlan.run_value (s : PdpState σ) (k : Nat) (rest : Int) :
    andThen (consumeItem beyond buf cb s .value k)
        (fun s => consumeItem beyond buf cb s .boundary (boundary.length + 1))
      = (PdpPlan.value boundary rest (some k)).run beyond buf cb s := by
  have hboundary : (fun s => consumeItem beyond buf cb s .boundary (boundary.length + 1))
      = (PdpPlan.item .boundary 0 (boundary.length + 1) (boundary.length + 1) (by decide)
          (.stop .next)).run beyond buf cb :=
    funext fun s => PdpPlan.run_item (by decide) 0 _ _ s
  rw [hboundary]
  rfl

def PdpPlan.quoted (buf text : List UInt8) (i : Nat) (e : PostEt)
    (he : e ≠ .finish ∧ e ≠ .error) : PdpPlan :=
  let nameEnd := getNameEnd buf (i + text.length)
  if nameEnd ≤ 0 then .stop .exx
  else .item e text.length (nameEnd - i + 1) (nameEnd - i - text.length) he (.stop .next)

theorem PdpPlan.run_quoted {text : List UInt8} {e : PostEt} (he : e ≠ .finish ∧ e ≠ .error)
    (s : PdpState σ) :
    (if getNameEnd buf (s.i + text.length) ≤ 0 then (.exx, s)
      else consumeItem2 beyond buf cb s e (getNameEnd buf (s.i + text.length) - s.i + 1)
        (s.i + text.length) (getNameEnd buf (s.i + text.length) - s.i - text.length))
      = (PdpPlan.quoted buf text s.i e he).run beyond buf cb s := by
  unfold quoted
  dsimp only
  split
  · rfl
  · exact PdpPlan.run_item he _ _ _ s

def PdpPlan.contentType (i rest : Nat) : Option Nat → PdpPlan
  | none => .read (contentTypePrefix.length + 1) rest (.stop .exx)
  | some k =>
    let itemLen : Int := (i + (contentTypePrefix.length + 1) : Nat) + k - i
    .read (contentTypePrefix.length + 1) rest
      (.item .contentType contentTypePrefix.length itemLen (itemLen - contentTypePrefix.length)
        (by decide)
        (.stop .next))

/-- **一回りは、種類と位置だけで決まる計画の通りに進む。** -/
theorem pdpTurn_plan (beyond : Nat → UInt8) (buf boundary : List UInt8) (e : PostEt) (i : Nat) :
    ∃ p : PdpPlan, ∀ {σ : Type u} (cb : PostDataParserAppCb σ) (s : PdpState σ),
      s.lastItemType = e → s.i = i → pdpTurn beyond buf cb boundary s = p.run beyond buf cb s := by
  cases e with
  | void =>
    refine ⟨.stop .exx, fun cb s he _ => ?_⟩
    unfold pdpTurn
    rw [he]
    rfl
  | error =>
    refine ⟨.stop .fail, fun cb s he _ => ?_⟩
    unfold pdpTurn
    rw [he]
    rfl
  | finish =>
    refine ⟨.stop .fail, fun cb s he _ => ?_⟩
    unfold pdpTurn
    rw [he]
    rfl
  | emptyLine =>
    refine ⟨.read 0 (buf.length - i) (.value boundary (buf.length - i)
      (memmem (readBytes beyond buf i (buf.length - i)) boundary)), fun cb s he hi => ?_⟩
    subst hi
    unfold pdpTurn
    rw [he]
    dsimp only
    cases memmem (readBytes beyond buf s.i (buf.length - s.i)) boundary with
    | none => rfl
    | some k => exact PdpPlan.run_value (s.read s.i (buf.length - s.i)) k (buf.length - s.i)
  | boundary =>
    obtain ⟨p, hp⟩ := looksAt_branch.{u} beyond buf contentDfd.length contentDfd i
      (.item .contentFormData 0 contentDfd.length contentDfd.length (by decide) (.stop .next))
      (if buf.length - i = 4 ∧ readBytes beyond buf i 4 = finishMark then .finish else .stop .exx)
    refine ⟨p, fun cb s he hi => ?_⟩
    obtain ⟨b, s₀, hlook, rfl, hrun⟩ := hp cb s hi
    unfold pdpTurn
    rw [he, hrun, hlook]
    dsimp only
    cases b with
    | true => exact PdpPlan.run_item (by decide) 0 _ _ s₀
    | false =>
      change (if buf.length - s₀.i = 4 ∧ readBytes beyond buf s₀.i 4 = finishMark then _ else _)
        = PdpPlan.run beyond buf cb (if _ then PdpPlan.finish else PdpPlan.stop .exx) s₀
      split
      · rfl
      · rfl
  | contentFormData =>
    obtain ⟨p, hp⟩ := looksAt_branch.{u} beyond buf nameS.length nameS i
      (.quoted buf nameS i .name (by decide)) (.stop .exx)
    refine ⟨p, fun cb s he hi => ?_⟩
    obtain ⟨b, s₀, hlook, rfl, hrun⟩ := hp cb s hi
    unfold pdpTurn
    rw [he, hrun, hlook]
    dsimp only
    cases b with
    | true => exact PdpPlan.run_quoted (by decide) s₀
    | false => rfl
  | name =>
    obtain ⟨r, hr⟩ := looksAt_branch.{u} beyond buf emptyLine.length emptyLine i
      (.item .emptyLine 0 emptyLine.length emptyLine.length (by decide) (.stop .next)) (.stop .exx)
    obtain ⟨p, hp⟩ := looksAt_branch.{u} beyond buf fnameS.length fnameS i
      (.quoted buf fnameS i .filename (by decide)) r
    refine ⟨p, fun cb s he hi => ?_⟩
    obtain ⟨b, s₀, hlook, rfl, hrun⟩ := hp cb s hi
    obtain ⟨b₁, s₁, hlook₁, -, hrun₁⟩ := hr cb s₀ rfl
    unfold pdpTurn
    rw [he, hrun, hlook]
    dsimp only
    cases b with
    | true => exact PdpPlan.run_quoted (by decide) s₀
    | false =>
      rw [hlook₁]
      refine Eq.trans ?_ hrun₁.symm
      cases b₁ with
      | true => exact PdpPlan.run_item (by decide) 0 _ _ s₁
      | false => rfl
  | filename =>
    obtain ⟨p, hp⟩ := looksAt_branch.{u} beyond buf
      (contentTypePrefix.length + 2) contentTypePrefix i
      (.contentType i (buf.length - i)
        (memmem (readBytes beyond buf (i + (contentTypePrefix.length + 1)) (buf.length - i)) crlf))
          (.stop .exx)
    refine ⟨p, fun cb s he hi => ?_⟩
    obtain ⟨b, s₀, hlook, rfl, hrun⟩ := hp cb s hi
    unfold pdpTurn
    rw [he, hrun, hlook]
    dsimp only
    cases b with
    | true =>
      rw [if_pos rfl, if_pos rfl]
      cases memmem (readBytes beyond buf (s₀.i + (contentTypePrefix.length + 1))
        (buf.length - s₀.i)) crlf with
      | none => rfl
      | some k => exact PdpPlan.run_item (by decide) contentTypePrefix.length _ _ (s₀.read _ _)
    | false => rfl
  | value =>
    refine ⟨.read 0 (buf.length - i)
      (if memmem (readBytes beyond buf i (buf.length - i)) boundary = some 0 then
        .item .boundary 0 (boundary.length + 1) (boundary.length + 1) (by decide) (.stop .next)
      else .value boundary (buf.length - i) (memmem
        (readBytes beyond buf i (buf.length - i)) boundary)),
      fun cb s he hi => ?_⟩
    subst hi
    unfold pdpTurn
    rw [he]
    dsimp only
    cases memmem (readBytes beyond buf s.i (buf.length - s.i)) boundary with
    | none => rfl
    | some k =>
      cases k with
      | zero => exact PdpPlan.run_item (by decide) 0 _ _ (s.read s.i (buf.length - s.i))
      | succ k => exact PdpPlan.run_value (s.read s.i (buf.length - s.i)) (k + 1) (buf.length - s.i)
  | contentType =>
    obtain ⟨p, hp⟩ := looksAt_branch.{u} beyond buf emptyLine.length emptyLine i
      (.item .emptyLine 0 emptyLine.length emptyLine.length (by decide) (.stop .next)) (.stop .exx)
    refine ⟨p, fun cb s he hi => ?_⟩
    obtain ⟨b, s₀, hlook, -, hrun⟩ := hp cb s hi
    unfold pdpTurn
    rw [he, hrun, hlook]
    dsimp only
    cases b with
    | true => exact PdpPlan.run_item (by decide) 0 _ _ s₀
    | false => rfl

/-! ## callback の状態 -/

/-- 渡した要素の分だけ、callback の状態が変わった。 -/
def Fed (cb : PostDataParserAppCb σ) (s s' : PdpState σ) : Prop :=
  ∃ es, elements s'.events = elements s.events ++ es ∧ s'.app = feed cb s.app es

theorem feed_append (cb : PostDataParserAppCb σ) (app : σ) (es fs : List PostElement) :
    feed cb app (es ++ fs) = feed cb (feed cb app es) fs :=
  List.foldl_append

theorem Fed.refl (cb : PostDataParserAppCb σ) (s : PdpState σ) : Fed cb s s :=
  ⟨[], (List.append_nil _).symm, rfl⟩

theorem Fed.trans {s s' s'' : PdpState σ} (h : Fed cb s s')
    (h' : Fed cb s' s'') : Fed cb s s'' := by
  obtain ⟨es, hel, happ⟩ := h
  obtain ⟨fs, hel', happ'⟩ := h'
  refine ⟨es ++ fs, ?_, ?_⟩
  · rw [hel', hel, List.append_assoc]
  · rw [happ', happ, feed_append]

theorem Fed.call (beyond : Nat → UInt8) (buf : List UInt8) (cb : PostDataParserAppCb σ)
    (s : PdpState σ) (e : PostEt) (ptr : Nat) (len : Int) :
    Fed cb s (s.call beyond buf cb e ptr len).2 := by
  refine ⟨[⟨e, readBytes beyond buf ptr len.toNat⟩], ?_, rfl⟩
  simp only [PdpState.call, elements_append]
  rfl

theorem consumeItem2_fed (beyond : Nat → UInt8) (buf : List UInt8) (cb : PostDataParserAppCb σ)
    (s : PdpState σ) (e : PostEt) (len : Int) (value : Nat) (vlen : Int) :
    Fed cb s (consumeItem2 beyond buf cb s e len value vlen).2 := by
  obtain ⟨es, hel, happ⟩ := Fed.call beyond buf cb s e value vlen
  unfold consumeItem2
  split
  next r s₁ hcall =>
  rw [hcall] at hel happ
  split
  · exact ⟨es, hel, happ⟩
  · exact ⟨es, hel, happ⟩

theorem PdpPlan.run_fed (beyond : Nat → UInt8) (buf : List UInt8) (cb : PostDataParserAppCb σ)
    (p : PdpPlan) : ∀ s : PdpState σ, Fed cb s (p.run beyond buf cb s).2 := by
  induction p with
  | stop t => exact fun s => Fed.refl cb s
  | finish => exact fun s => Fed.call beyond buf cb s .finish s.i 4
  | read offset len rest ih =>
    intro s
    obtain ⟨es, hel, happ⟩ := ih (s.read (s.i + offset) len)
    exact ⟨es, by rw [run, hel, elements_read], happ⟩
  | item e offset len vlen he rest ih =>
    intro s
    have hfed := consumeItem2_fed beyond buf cb s e len (s.i + offset) vlen
    rw [run]
    cases hr : consumeItem2 beyond buf cb s e len (s.i + offset) vlen with
    | mk t s₁ =>
      rw [hr] at hfed
      cases t with
      | next => exact hfed.trans (ih s₁)
      | _ => exact hfed

theorem pdpLoop_fed (fuel : Nat) : ∀ {s : PdpState σ} {r : PdpNext × PdpState σ},
    pdpLoop beyond buf cb boundary fuel s = some r → Fed cb s r.2 := by
  induction fuel with
  | zero =>
    intro s r h
    unfold pdpLoop at h
    split at h
    · cases h
    · cases h
      exact Fed.refl cb s
  | succ n ih =>
    intro s r h
    obtain ⟨p, hp⟩ := pdpTurn_plan.{u} beyond buf boundary s.lastItemType s.i
    have hfed := p.run_fed beyond buf cb s
    rw [← hp cb s rfl rfl] at hfed
    unfold pdpLoop at h
    split at h
    · split at h
      next s₁ hturn =>
        rw [hturn] at hfed
        exact hfed.trans (ih h)
      next =>
        cases h
        exact hfed
    · cases h
      exact Fed.refl cb s

theorem pdpReturn_app (ctx : PostDataCtx) {s : PdpState σ} {r : PdpNext × PdpState σ}
    (h : Fed cb s r.2)
    (hs : elements s.events = []) :
    (pdpReturn cb ctx r).app = feed cb s.app (elements (pdpReturn cb ctx r).events) := by
  obtain ⟨t, s'⟩ := r
  obtain ⟨es, hel, happ⟩ := h
  rw [hs, List.nil_append] at hel
  have hkeep : s'.app = feed cb s.app (elements s'.events) := by rw [hel, happ]
  cases t with
  | exx =>
    have herror : elements (s'.events ++ [.call .error none 0 []])
      = elements s'.events ++ [⟨.error, []⟩] :=
      elements_append _ _
    simp only [pdpReturn]
    rw [herror, feed_append, ← hkeep]
    rfl
  | _ => exact hkeep

/-- **callback の状態は、渡した要素の列だけで決まる。** -/
theorem postDataParser_app {ctx : PostDataCtx} {app : σ} {r : PdpResult σ}
    (h : postDataParser beyond buf cb ctx app = some r) : r.app
      = feed cb app (elements r.events) := by
  unfold postDataParser at h
  dsimp only at h
  split at h
  · split at h
    · cases h
      rfl
    · split at h
      next s hitem =>
        obtain ⟨t, ht, rfl⟩ := Option.map_eq_some_iff.mp h
        have hfirst := consumeItem2_fed beyond buf cb
          (PdpState.mk .void 0 app [.read 0 (min pdpBoundaryMax buf.length)]) .boundary
          (pdpLocateBoundary buf + 1) 0 (pdpLocateBoundary buf + 1)
        have hs := congrArg Prod.snd hitem
        unfold consumeItem at hs
        rw [hs] at hfirst
        exact pdpReturn_app _ (hfirst.trans (pdpLoop_fed _ ht)) rfl
      next t hitem =>
        cases h
        have hfirst := consumeItem2_fed beyond buf cb
          (PdpState.mk .void 0 app [.read 0 (min pdpBoundaryMax buf.length)]) .boundary
          (pdpLocateBoundary buf + 1) 0 (pdpLocateBoundary buf + 1)
        exact pdpReturn_app _ hfirst rfl
  · obtain ⟨t, ht, rfl⟩ := Option.map_eq_some_iff.mp h
    exact pdpReturn_app _ (pdpLoop_fed _ ht) rfl

/-! ## 断るまで -/

structure Abreast (s : PdpState σ) (t : PdpState (Bool × σ)) : Prop where
  last : t.lastItemType = s.lastItemType
  i : t.i = s.i
  app : t.app = (false, s.app)
  events : t.events = s.events

/-- 同じ所で同じように抜けたか、断られて抜けた。 -/
def Latched (p : PdpNext × PdpState σ) (q : PdpNext × PdpState (Bool × σ)) : Prop :=
  (q.1 = p.1 ∧ Abreast p.2 q.2) ∨ (p.1 = .fail ∧ q.2.app = (true, p.2.app))

theorem feed_latched (cb : PostDataParserAppCb σ) (a : σ) (es : List PostElement) :
    feed (latched cb) (true, a) es = (true, a) := by
  induction es with
  | nil => rfl
  | cons x es ih => exact ih

theorem Fed.stopped {t t' : PdpState (Bool × σ)} {a : σ} (h : Fed (latched cb) t t')
    (ht : t.app = (true, a)) : t'.app = (true, a) := by
  obtain ⟨es, -, happ⟩ := h
  rw [happ, ht, feed_latched]

theorem Abreast.start (e : PostEt) (app : σ) (events : List PdpEvent) :
    Abreast ⟨e, 0, app, events⟩ ⟨e, 0, (false, app), events⟩ :=
  ⟨rfl, rfl, rfl, rfl⟩

theorem latched_accepts (cb : PostDataParserAppCb σ) (a : Bool × σ) (e : PostEt) (b : List UInt8) :
    (latched cb a e b).1 = 0 := by
  unfold latched
  split
  · rfl
  · rfl

theorem consumeItem2_latched (beyond : Nat → UInt8) (buf : List UInt8) (cb : PostDataParserAppCb σ)
    {s : PdpState σ} {t : PdpState (Bool × σ)} (h : Abreast s t) {e : PostEt}
    (he : e ≠ .finish ∧ e ≠ .error) (len : Int) (value : Nat) (vlen : Int) :
    (∃ s' t', consumeItem2 beyond buf cb s e len value vlen = (.next, s') ∧
      consumeItem2 beyond buf (latched cb) t e len value vlen = (.next, t') ∧ Abreast s' t') ∨
    (∃ s' t', consumeItem2 beyond buf cb s e len value vlen = (.fail, s') ∧
      consumeItem2 beyond buf (latched cb) t e len value vlen = (.next, t') ∧
        t'.app = (true, s'.app)) := by
  unfold consumeItem2 PdpState.call latched
  dsimp only
  rw [h.app, h.i, h.events]
  by_cases hr : (cb s.app e (readBytes beyond buf value vlen.toNat)).1 = 0
  · refine Or.inl ⟨_, _, if_neg (not_not.mpr hr), if_neg (by simp), rfl, rfl, ?_, rfl⟩
    simp [hr]
  · refine Or.inr ⟨_, _, if_pos hr, if_neg (by simp), ?_⟩
    simp [hr, he]

/-- **断られるまで、同じ計画を同じように進む。** -/
theorem PdpPlan.run_latched (p : PdpPlan) : ∀ {s : PdpState σ} {t : PdpState (Bool × σ)},
    Abreast s t →
    Latched (p.run beyond buf cb s) (p.run beyond buf (latched cb) t) := by
  induction p with
  | stop r => exact fun h => Or.inl ⟨rfl, h⟩
  | finish =>
    intro s t h
    refine Or.inl ⟨rfl, h.last, h.i, ?_, ?_⟩
    · simp [run, PdpState.call, latched, h.app, h.i]
    · simp [run, PdpState.call, h.events, h.i]
  | read offset len rest ih =>
    intro s t h
    refine ih ⟨h.last, h.i, h.app, ?_⟩
    simp [PdpState.read, h.events, h.i]
  | item e offset len vlen he rest ih =>
    intro s t h
    rw [run, run, h.i]
    rcases consumeItem2_latched beyond buf cb h he len (s.i + offset) vlen with
      ⟨s', t', hs, ht, h'⟩ | ⟨s', t', hs, ht, h'⟩
    · rw [hs, ht]
      exact ih h'
    · rw [hs, ht]
      exact Or.inr ⟨rfl, (rest.run_fed beyond buf (latched cb) t').stopped h'⟩

theorem pdpLoop_latched (fuel : Nat) : ∀ {s : PdpState σ} {t : PdpState (Bool × σ)}
    {q : PdpNext × PdpState (Bool × σ)}, Abreast s t →
    pdpLoop beyond buf (latched cb) boundary fuel t = some q →
      ∃ p, pdpLoop beyond buf cb boundary fuel s = some p ∧ Latched p q := by
  induction fuel with
  | zero =>
    intro s t q h hq
    unfold pdpLoop at hq ⊢
    rw [h.i] at hq
    split at hq
    · cases hq
    next hend =>
      cases hq
      exact ⟨_, if_neg hend, Or.inl ⟨rfl, h⟩⟩
  | succ n ih =>
    intro s t q h hq
    obtain ⟨plan, hplan⟩ := pdpTurn_plan.{u} beyond buf boundary s.lastItemType s.i
    have hturn : Latched (plan.run beyond buf cb s) (plan.run beyond buf (latched cb) t) :=
      plan.run_latched h
    rw [← hplan cb s rfl rfl, ← hplan (latched cb) t h.last h.i] at hturn
    unfold pdpLoop at hq ⊢
    rw [h.i] at hq
    by_cases hlt : s.i < buf.length
    · rw [if_pos hlt] at hq ⊢
      rcases hturn with ⟨htag, h'⟩ | ⟨hfail, hstop⟩
      · cases hs : pdpTurn beyond buf cb boundary s with
        | mk r s' =>
          cases ht : pdpTurn beyond buf (latched cb) boundary t with
          | mk r' t' =>
            rw [hs, ht] at htag h'
            dsimp only at htag h'
            subst htag
            rw [ht] at hq
            cases r' with
            | next => exact ih h' hq
            | _ =>
              cases hq
              exact ⟨_, rfl, Or.inl ⟨rfl, h'⟩⟩
      · -- 断られた。代わりの callback では、まだ続くかもしれない
        cases hs : pdpTurn beyond buf cb boundary s with
        | mk r s' =>
          rw [hs] at hfail hstop
          dsimp only at hfail hstop
          subst hfail
          refine ⟨_, rfl, Or.inr ⟨rfl, ?_⟩⟩
          split at hq
          next t' ht =>
            rw [ht] at hstop
            exact (pdpLoop_fed n hq).stopped hstop
          next =>
            cases hq
            exact hstop
    · rw [if_neg hlt] at hq ⊢
      cases hq
      exact ⟨_, rfl, Or.inl ⟨rfl, h⟩⟩

structure AnsweredAlike (r : PdpResult σ) (r' : PdpResult (Bool × σ)) : Prop where
  app : r'.app.2 = r.app
  accepted : r'.app.1 = false → r.ret = r'.ret ∧ r.ctx = r'.ctx ∧ r.events = r'.events
  refused : r'.app.1 = true → r.ret = -1

theorem pdpReturn_latched {p : PdpNext × PdpState σ} {q : PdpNext × PdpState (Bool × σ)}
    (h : Latched p q)
    (ctx : PostDataCtx) : AnsweredAlike (pdpReturn cb ctx p) (pdpReturn (latched cb) ctx q) := by
  obtain ⟨r, s⟩ := p
  obtain ⟨r', t⟩ := q
  rcases h with ⟨htag, h⟩ | ⟨hfail, hstop⟩
  · dsimp only at htag h
    subst htag
    cases r' with
    | exx =>
      have happ : (latched cb t.app .error []).2 = (false, (cb s.app .error []).2) := by
        simp [latched, h.app]
      refine ⟨congrArg Prod.snd happ, fun _ => ⟨rfl, rfl, ?_⟩, fun hr => ?_⟩
      · simp [pdpReturn, h.events]
      · rw [pdpReturn, happ] at hr
        cases hr
    | _ =>
      refine ⟨congrArg Prod.snd h.app, fun _ => ⟨rfl, ?_, h.events.symm⟩, fun hr => ?_⟩
      · simp [pdpReturn, h.last]
      · rw [pdpReturn, h.app] at hr
        cases hr
  · dsimp only at hfail hstop
    subst hfail
    have happ : (pdpReturn (latched cb) ctx (r', t)).app = (true, s.app) := by
      cases r' with
      | exx => simp [pdpReturn, latched, hstop]
      | _ => exact hstop
    refine ⟨congrArg Prod.snd happ, fun hr => ?_, fun _ => rfl⟩
    rw [happ] at hr
    cases hr

/-- **断らない callback に代えても、断るまでは同じように読む。** -/
theorem postDataParser_latched {ctx : PostDataCtx} {app : σ} {r' : PdpResult (Bool × σ)}
    (h : postDataParser beyond buf (latched cb) ctx (false, app) = some r') :
    ∃ r, postDataParser beyond buf cb ctx app = some r ∧ AnsweredAlike r r' := by
  unfold postDataParser at h ⊢
  dsimp only at h ⊢
  by_cases hvoid : ctx.lastItemType = .void
  · rw [if_pos hvoid] at h ⊢
    by_cases hline : pdpLocateBoundary buf ≤ 2 ∨ pdpBoundaryMax ≤ pdpLocateBoundary buf + 2
    · rw [if_pos hline] at h ⊢
      cases h
      exact ⟨_, rfl, rfl, fun _ => ⟨rfl, rfl, rfl⟩, fun hr => by cases hr⟩
    · rw [if_neg hline] at h ⊢
      have hboundary : PostEt.boundary ≠ .finish ∧ PostEt.boundary ≠ .error := by decide
      have hfirst := consumeItem2_latched beyond buf cb
        (.start .void app [.read 0 (min pdpBoundaryMax buf.length)]) hboundary
          (pdpLocateBoundary buf + 1) 0
        (pdpLocateBoundary buf + 1)
      unfold consumeItem at h ⊢
      rcases hfirst with ⟨s, t, hs, ht, hst⟩ | ⟨s, t, hs, ht, hst⟩
      · rw [ht] at h
        rw [hs]
        obtain ⟨q, hq, rfl⟩ := Option.map_eq_some_iff.mp h
        obtain ⟨p, hp, hpq⟩ := pdpLoop_latched _ hst hq
        exact ⟨_, by dsimp only; rw [hp]; rfl, pdpReturn_latched hpq _⟩
      · rw [ht] at h
        rw [hs]
        obtain ⟨q, hq, rfl⟩ := Option.map_eq_some_iff.mp h
        exact ⟨_, rfl, pdpReturn_latched (Or.inr ⟨rfl, (pdpLoop_fed _ hq).stopped hst⟩) _⟩
  · rw [if_neg hvoid] at h ⊢
    obtain ⟨q, hq, rfl⟩ := Option.map_eq_some_iff.mp h
    obtain ⟨p, hp, hpq⟩ := pdpLoop_latched _ (.start _ _ _) hq
    exact ⟨_, by rw [hp]; rfl, pdpReturn_latched hpq _⟩

/-! ## form を読む -/

/--
**form を読むと、終わりの印までに断られれば -1 が返り、断られなければ終わりの印も渡って 0 が返る。** どちらでも
callback の状態は、渡った要素で決まる。
-/
theorem post_feed (cb : PostDataParserAppCb σ) (beyond : Nat → UInt8) {line : List UInt8}
    (hlower : 4 ≤ line.length) (hupper : line.length ≤ 254) (hcr : 13 ∉ line)
    (parts : List (FormPart line)) (hparts : parts ≠ []) (app : σ) :
    ∃ r, postDataParser beyond (renderForm line parts) cb .init app = some r ∧
      let a := feed (latched cb) (false, app) (⟨.boundary, line⟩ :: parts.flatMap FormPart.elements)
      if a.1 then r.ret = -1 ∧ r.app = a.2
      else r.ret = 0 ∧ r.app = (cb a.2 .finish finishMark).2 := by
  obtain ⟨r', hr', hret, -, hels⟩ := PostBody.read (latched_accepts cb) beyond
    (formBody hlower hupper hcr hparts) (false, app)
  rw [formBody_render] at hr'
  rw [formBody_elements] at hels
  obtain ⟨r, hr, hans⟩ := postDataParser_latched hr'
  have happ := postDataParser_app hr'
  have hform : formElements line parts
      = (⟨.boundary, line⟩ :: parts.flatMap FormPart.elements) ++ [⟨.finish, finishMark⟩] := rfl
  rw [hels, hform, feed_append] at happ
  refine ⟨r, hr, ?_⟩
  dsimp only
  generalize feed (latched cb) (false, app) (⟨.boundary, line⟩ :: parts.flatMap FormPart.elements)
    = a
    at happ ⊢
  obtain ⟨b, a⟩ := a
  cases b with
  | true =>
    rw [feed_latched] at happ
    rw [if_pos rfl]
    exact ⟨hans.refused (by rw [happ]), by rw [← hans.app, happ]⟩
  | false =>
    have hlast : feed (latched cb) (false, a) [⟨.finish, finishMark⟩]
      = (false, (cb a .finish finishMark).2) := by
      simp [feed, latched]
    rw [hlast] at happ
    rw [if_neg (by simp)]
    exact ⟨(hans.accepted (by rw [happ])).1.trans hret, by rw [← hans.app, happ]⟩

end

end Esq
