import Esq.PostData.Accept
import Esq.PostData.Cuts

/-!
# 分けて読む

本体を幾つかの buffer に分けて、順に `post_data_parser` に渡す。buffer の後ろの memory が何であっても同じ要素が
渡るのは、どの切れ目も token の間（型の直後を除く）か値の中にあるとき、そのときに限る。
-/

namespace Esq

open Infra

/-- 切れ目のある本体を、初めの buffer から順に渡す。0 でない値が返れば、そこで終わる。 -/
def feedChunks {σ : Type*} (cb : PostDataParserAppCb σ) (mem : Nat → Nat → UInt8) :
    Nat → PostDataCtx → σ → List (List UInt8) → Option (PdpResult σ)
  | _, ctx, app, [] => some ⟨0, ctx, app, []⟩
  | k, ctx, app, c :: cs =>
    match postDataParser (mem k) c cb ctx app with
    | none => none
    | some r =>
      if r.ret ≠ 0 then some r
      else (feedChunks cb mem (k + 1) r.ctx r.app cs).map fun r' =>
        { r' with events := r.events ++ r'.events }

section

variable {σ : Type*} {beyond : Nat → UInt8} {mem : Nat → Nat → UInt8} {line c : List UInt8}
  {cs : List (List UInt8)} {cb : PostDataParserAppCb σ} {s : PdpState σ} {e e' : PostEt}
  {ts us : List PostToken} {n k : Nat} {es : List PostElement} {ctx : PostDataCtx} {app : σ}

theorem feedChunks_cons {r r' : PdpResult σ} (h : postDataParser (mem k) c cb ctx app = some r)
    (hret : r.ret = 0) (hrest : feedChunks cb mem (k + 1) r.ctx r.app cs = some r') :
    feedChunks cb mem k ctx app (c :: cs) = some { r' with events := r.events ++ r'.events } := by
  rw [feedChunks, h]
  dsimp only
  rw [if_neg (by simp [hret]), hrest]
  rfl

theorem feedChunks_inv {r : PdpResult σ} (h : feedChunks cb mem k ctx app (c :: cs) = some r)
    (hret : r.ret = 0) :
    ∃ r₁ r₂, postDataParser (mem k) c cb ctx app = some r₁ ∧ r₁.ret = 0 ∧
      feedChunks cb mem (k + 1) r₁.ctx r₁.app cs = some r₂ ∧ r₂.ret = 0 ∧
      r.events = r₁.events ++ r₂.events := by
  rw [feedChunks] at h
  cases hparse : postDataParser (mem k) c cb ctx app with
  | none =>
    rw [hparse] at h
    cases h
  | some r₁ =>
    rw [hparse] at h
    dsimp only at h
    split at h
    · next hne =>
      rw [← Option.some.inj h] at hret
      exact absurd hret hne
    · next hzero =>
      obtain ⟨r₂, hrest, rfl⟩ := Option.map_eq_some_iff.mp h
      exact ⟨r₁, r₂, rfl, by simpa using hzero, hrest, hret, rfl⟩

theorem postDataParser_next (beyond : Nat → UInt8) (c line : List UInt8)
    (cb : PostDataParserAppCb σ)
    (he : e ≠ .void) (app : σ) :
    postDataParser beyond c cb ⟨e, delimiter line⟩ app
      = (pdpLoop beyond c cb (delimiter line) c.length ⟨e, 0, app, []⟩).map
          (pdpReturn cb ⟨e, delimiter line⟩) := by
  unfold postDataParser
  exact if_neg he

theorem Tokens.ne_void (h : Tokens line e ts) : e ≠ .void := by
  rintro rfl
  cases h

theorem read_emits (hcb : ∀ a e b, (cb a e b).1 = 0) (beyond : Nat → UInt8)
    (h : Emits line e ts n es e' us)
    (hlast : s.lastItemType = e) (ht : Tokens line e ts) (hi : s.i ≤ c.length)
    (hrest : c.drop s.i = (renderTokens line ts).take n) (k : PostEt) :
    ∃ r, (pdpLoop beyond c cb (delimiter line) c.length s).map (pdpReturn cb ⟨k, delimiter line⟩)
      = some r ∧
      r.ret = 0 ∧ r.ctx = ⟨e', delimiter line⟩ ∧ Tokens line e' us ∧
      elements r.events = elements s.events ++ es := by
  obtain ⟨t, hloop, hels, hus, hended⟩ := pdpLoop_emits hcb beyond h hlast ht hi hrest
    (Nat.sub_le _ _)
  obtain ⟨hret, hctx, hevents⟩ := hended.result cb ⟨k, delimiter line⟩
  rw [hloop]
  exact ⟨_, rfl, hret, hctx, hus, by rw [hevents, hels]⟩

theorem read_last_byte (cb : PostDataParserAppCb σ) (hus : Tokens line .boundary us) {b : UInt8}
    (hc : c ≠ [])
    (hpre : c <+: b :: renderTokens line us) (beyond : Nat → UInt8) (app : σ) :
    ∃ r, postDataParser beyond c cb ⟨.boundary, delimiter line⟩ app = some r ∧ r.ret = -1 := by
  obtain ⟨d, c, rfl⟩ := List.exists_cons_of_ne_nil hc
  obtain ⟨-, hc'⟩ := List.cons_prefix_cons.mp hpre
  have hdfd : ¬contentDfd <+: d :: c := by
    intro h
    have h' := (List.cons_prefix_cons.mp h).2.trans hc'
    cases hus with
    | finish => exact absurd (List.cons_prefix_cons.mp h').1 (by decide)
    | formData => exact absurd (List.cons_prefix_cons.mp h').1 (by decide)
  have hfinish : d :: c ≠ finishMark := by
    intro h
    rw [(List.cons.inj h).2] at hc'
    cases hus with
    | finish =>
      exact absurd (List.cons_prefix_cons.mp (List.cons_prefix_cons.mp hc').2).1 (by decide)
    | formData => exact absurd (List.cons_prefix_cons.mp hc').1 (by decide)
  obtain ⟨s', hturn⟩ : ∃ s', pdpTurn beyond (d :: c) cb (delimiter line) ⟨.boundary, 0, app, []⟩
      = (.exx, s') :=
    pdpTurn_boundary_exx _ _ _ (Nat.zero_le _) rfl hdfd hfinish
  have hvoid : PostEt.boundary ≠ .void := fun h => nomatch h
  rw [postDataParser_next beyond (d :: c) line cb hvoid,
    pdpLoop_stop (Nat.succ_pos _) (Nat.sub_le _ _) hturn (fun h => nomatch h)]
  exact ⟨_, rfl, rfl⟩

theorem read_broken (hcb : ∀ a e b, (cb a e b).1 = 0) (hlast : s.lastItemType = e)
    (ht : Tokens line e ts)
    (hpos : 0 < n) (hlt : n < (renderTokens line ts).length) (hcut : ∀ us, ¬Cut line ts n us)
    (hi : s.i ≤ c.length) (hrest : c.drop s.i = (renderTokens line ts).take n) (j : PostEt)
    {r r' : PdpResult σ}
    (h : (pdpLoop (fun _ => 0) c cb (delimiter line) c.length s).map
      (pdpReturn cb ⟨j, delimiter line⟩)
      = some r) (hret : r.ret = 0)
    (hfeed : feedChunks cb (fun _ _ => 0) k r.ctx r.app cs = some r') (hret' : r'.ret = 0)
    (hne : cs ≠ []) (hcs : ∀ c ∈ cs, c ≠ []) (hflat : cs.flatten = (renderTokens line ts).drop n) :
    ∃ es, elements r.events = elements s.events ++ es ∧
      ∀ fs, ¬Same e (es ++ fs) (tokenElements line ts) := by
  obtain ⟨t, hloop, hbroken⟩ := pdpLoop_broken hcb ts hlast ht hpos hlt hcut hi hrest
    (Nat.sub_le _ _)
  rw [hloop] at h
  obtain rfl := Option.some.inj h
  obtain ⟨m, s'⟩ := t
  rcases hbroken with hexx | ⟨hok, es, hes, hno⟩ | ⟨hok, hlast', b, us, hdrop, hus⟩
  · obtain rfl : m = .exx := hexx
    exact absurd hret (show ¬((-1 : Int) = 0) by decide)
  · obtain rfl : m = .ok := hok
    exact ⟨es, hes, hno⟩
  · -- 次の buffer は、区切りの行の最後の byte から始まる
    obtain rfl : m = .ok := hok
    obtain ⟨c₁, cs, rfl⟩ := List.exists_cons_of_ne_nil hne
    obtain ⟨r₁, -, hparse, hret₁, -⟩ := feedChunks_inv hfeed hret'
    have hctx : (pdpReturn cb ⟨j, delimiter line⟩ (PdpNext.ok, s')).ctx
      = ⟨.boundary, delimiter line⟩ := by
      rw [← hlast']
      rfl
    rw [hctx] at hparse
    obtain ⟨r₂, hr₂, hminus⟩ := read_last_byte cb hus (hcs c₁ List.mem_cons_self) (by
      rw [← hdrop, ← hflat, List.flatten_cons]
      exact List.prefix_append _ _) (fun _ => 0)
        (pdpReturn cb ⟨j, delimiter line⟩ (PdpNext.ok, s')).app
    rw [hr₂] at hparse
    rw [← Option.some.inj hparse, hminus] at hret₁
    exact absurd hret₁ (by decide)

/-! ## 二つめからの buffer -/

/-- 空でない buffer に分けた残りの、どの切れ目も良い。 -/
def CutsOk (line : List UInt8) (ts : List PostToken) (cs : List (List UInt8)) : Prop :=
  ∀ pre post, cs = pre ++ post → pre ≠ [] → post ≠ [] → ∃ us, Cut line ts pre.flatten.length us

theorem Same.refl (e : PostEt) (es : List PostElement) : Same e es es := by
  unfold Same
  split <;> rfl

theorem Emits.cut (h : Emits line e ts n es e' us) : Cut line ts n us := by
  induction h with
  | here e ts => exact .here ts
  | part e hv => exact .value hv
  | next e h hct ih => exact .next ih hct

theorem CutsOk.tail (h : Cut line ts c.length us)
    (hcs : CutsOk line ts (c :: cs)) : CutsOk line us cs := by
  intro pre post heq _ hpost
  obtain ⟨us', h'⟩ := hcs (c :: pre) post (by rw [heq, List.cons_append])
    (List.cons_ne_nil _ _) hpost
  rw [List.flatten_cons, List.length_append] at h'
  exact ⟨us', h.of_trans h'⟩

theorem exists_emits (ht : Tokens line e ts) (hflat : (c :: cs).flatten = renderTokens line ts)
    (hcut : cs ≠ [] → ∃ us, Cut line ts c.length us) :
    ∃ es e' us, Emits line e ts c.length es e' us ∧ cs.flatten = renderTokens line us := by
  rw [List.flatten_cons] at hflat
  by_cases hcs : cs = []
  · rw [hcs, List.flatten_nil, List.append_nil] at hflat
    obtain ⟨es, hemits, -⟩ := ht.emits
    rw [← hflat] at hemits
    exact ⟨es, _, _, hemits, by rw [hcs]; rfl⟩
  · obtain ⟨us, h⟩ := hcut hcs
    obtain ⟨es, e', hemits⟩ := h.emits e
    refine ⟨es, e', us, hemits, ?_⟩
    rw [← h.drop, ← hflat, List.drop_left]

/-- **どの切れ目も良ければ、残りの要素がすべて渡る。** -/
theorem feedChunks_good (hcb : ∀ a e b, (cb a e b).1 = 0) (mem : Nat → Nat → UInt8)
    (cs : List (List UInt8)) :
    ∀ {e : PostEt} {ts : List PostToken} (k : Nat) (app : σ), Tokens line e ts →
      cs.flatten = renderTokens line ts → CutsOk line ts cs →
      ∃ r, feedChunks cb mem k ⟨e, delimiter line⟩ app cs = some r ∧ r.ret = 0 ∧
        Same e (elements r.events) (tokenElements line ts) := by
  induction cs with
  | nil =>
    intro e ts k app ht hflat _
    cases ts with
    | nil => exact ⟨_, rfl, rfl, Same.refl _ _⟩
    | cons x ts => exact absurd (List.append_eq_nil_iff.mp hflat.symm).1 (x.render_ne_nil line)
  | cons c cs ih =>
    intro e ts k app ht hflat hcuts
    obtain ⟨es, e', us, hemits, hrest⟩ := exists_emits ht hflat fun hne => by
      have h := hcuts [c] cs rfl (List.cons_ne_nil _ _) hne
      rwa [List.flatten_singleton] at h
    obtain ⟨r, hr, hret, hctx, hus, hels⟩ := read_emits hcb (mem k) hemits
      (s := ⟨e, 0, app, []⟩) (c := c) rfl ht (Nat.zero_le _) (by
        rw [← hflat, List.flatten_cons, List.take_left]
        rfl) e
    rw [← postDataParser_next (mem k) c line cb ht.ne_void] at hr
    obtain ⟨r', hr', hret', hsame⟩ := ih (k + 1) r.app hus hrest (hcuts.tail hemits.cut)
    rw [← hctx] at hr'
    refine ⟨_, feedChunks_cons hr hret hr', hret', ?_⟩
    rw [elements_append, hels]
    exact (hemits.same_iff ht _).mpr hsame

theorem read_bad (hcb : ∀ a e b, (cb a e b).1 = 0) {d : List UInt8}
    (ih : ∀ {e : PostEt} {ts : List PostToken} {k : Nat} {app : σ} {r : PdpResult σ},
      Tokens line e ts → cs.flatten = renderTokens line ts → ¬CutsOk line ts cs →
        feedChunks cb (fun _ _ => 0) k ⟨e, delimiter line⟩ app cs = some r → r.ret = 0 →
          ¬Same e (elements r.events) (tokenElements line ts))
    (ht : Tokens line e ts) (hlast : s.lastItemType = e) (hi : s.i ≤ c.length) (hd : c.drop s.i = d)
    (hne : d ≠ []) (hcs : ∀ c ∈ cs, c ≠ []) (hflat : (d :: cs).flatten = renderTokens line ts)
    (hcuts : ¬CutsOk line ts (d :: cs)) (j : PostEt) {r r' : PdpResult σ}
    (hr : (pdpLoop (fun _ => 0) c cb (delimiter line) c.length s).map
      (pdpReturn cb ⟨j, delimiter line⟩)
      = some r) (hret : r.ret = 0)
    (hfeed : feedChunks cb (fun _ _ => 0) k r.ctx r.app cs = some r') (hret' : r'.ret = 0) :
    ∃ es, elements r.events = elements s.events ++ es ∧
      ¬Same e (es ++ elements r'.events) (tokenElements line ts) := by
  have hrest : c.drop s.i = (renderTokens line ts).take d.length := by
    rw [← hflat, List.flatten_cons, List.take_left]
    exact hd
  by_cases hcut : cs ≠ [] → ∃ us, Cut line ts d.length us
  · obtain ⟨es, e', us, hemits, hrest'⟩ := exists_emits ht hflat hcut
    obtain ⟨r₁, hr₁, -, hctx, hus, hels⟩ := read_emits hcb (fun _ => 0) hemits hlast ht hi hrest j
    obtain rfl := Option.some.inj (hr₁.symm.trans hr)
    rw [hctx] at hfeed
    refine ⟨es, hels, fun hsame => ih hus hrest' (fun hok => ?_) hfeed hret'
      ((hemits.same_iff ht _).mp hsame)⟩
    -- 残りの切れ目がどれも良ければ、初めから見ても良い
    refine hcuts fun pre post heq hpre hpost => ?_
    cases pre with
    | nil => exact absurd rfl hpre
    | cons d' pre =>
      obtain ⟨rfl, rfl⟩ := List.cons.inj heq
      rw [List.flatten_cons, List.length_append]
      by_cases hnil : pre = []
      · obtain ⟨us', h⟩ := hcut (by rw [hnil]; exact hpost)
        rw [hnil]
        exact ⟨us', h⟩
      · obtain ⟨us', h⟩ := hok pre post rfl hnil hpost
        exact ⟨us', hemits.cut.trans h⟩
  · push Not at hcut
    obtain ⟨hcsne, hcut⟩ := hcut
    have hflat' : cs.flatten = (renderTokens line ts).drop d.length := by
      rw [← hflat, List.flatten_cons, List.drop_left]
    have hlt : d.length < (renderTokens line ts).length := by
      obtain ⟨c', cs, rfl⟩ := List.exists_cons_of_ne_nil hcsne
      have hpos := List.length_pos_iff.mpr (hcs c' List.mem_cons_self)
      rw [← hflat, List.flatten_cons, List.flatten_cons, List.length_append, List.length_append]
      omega
    obtain ⟨es, hels, hno⟩ := read_broken hcb hlast ht
      (List.length_pos_iff.mpr hne) hlt hcut hi hrest j hr
      hret hfeed hret' hcsne hcs hflat'
    exact ⟨es, hels, hno _⟩

/-- **悪い切れ目があれば、memory が 0 のとき、誤りになるか、渡る要素が違う。** -/
theorem feedChunks_bad (hcb : ∀ a e b, (cb a e b).1 = 0) (cs : List (List UInt8))
    (hcs : ∀ c ∈ cs, c ≠ []) :
    ∀ {e : PostEt} {ts : List PostToken} {k : Nat} {app : σ} {r : PdpResult σ}, Tokens line e ts →
      cs.flatten = renderTokens line ts → ¬CutsOk line ts cs →
        feedChunks cb (fun _ _ => 0) k ⟨e, delimiter line⟩ app cs = some r → r.ret = 0 →
          ¬Same e (elements r.events) (tokenElements line ts) := by
  induction cs with
  | nil =>
    intro e ts k app r _ _ hcuts
    exact absurd (fun pre post heq hpre _ => absurd (List.append_eq_nil_iff.mp heq.symm).1 hpre)
      hcuts
  | cons c cs ih =>
    intro e ts k app r ht hflat hcuts hr hret
    have hcs' : ∀ c ∈ cs, c ≠ [] := fun c hc => hcs c (List.mem_cons_of_mem _ hc)
    obtain ⟨r₁, r₂, hparse, hret₁, hfeed, hret₂, hevents⟩ := feedChunks_inv hr hret
    rw [postDataParser_next (fun _ => 0) c line cb ht.ne_void] at hparse
    obtain ⟨es, hels, hno⟩ := read_bad hcb (s := ⟨e, 0, app, []⟩) (ih hcs') ht rfl
      (Nat.zero_le _) rfl
      (hcs c List.mem_cons_self) hcs' hflat hcuts e hparse hret₁ hfeed hret₂
    rw [hevents, elements_append, hels]
    exact hno

/-! ## 初めの buffer -/

/-- 本体の、切ってよい位置。区切りの行の次の要素より後ろである。 -/
def PostBody.CutAt (b : PostBody) (n : Nat) : Prop :=
  ∃ m us, 0 < m ∧ n = b.line.length + m ∧ Cut b.line b.tokens m us

/-- 分けて渡すと、memory が何であっても 0 が返り、一つの buffer で渡したときと同じ要素が渡る。 -/
def ChunksAgree (cb : PostDataParserAppCb σ) (app : σ) (cs : List (List UInt8)) : Prop :=
  ∀ mem beyond, ∃ r r', feedChunks cb mem 0 .init app cs = some r ∧
    postDataParser beyond cs.flatten cb .init app = some r' ∧ r.ret = 0 ∧
    joinValues (elements r.events) = joinValues (elements r'.events)

theorem PostBody.crlf_take (b : PostBody) {m : Nat} (hm : 2 ≤ m) :
    crlf <+: (renderTokens b.line b.tokens).take m :=
  List.prefix_take_iff.mpr ⟨b.starts, hm⟩

theorem PostBody.two_le_of_cut (b : PostBody) {m : Nat} (h : Cut b.line b.tokens m us)
    (hm : 0 < m) :
    2 ≤ m := by
  have hwf := b.wf
  have hstarts := b.starts
  generalize b.tokens = ts at h hwf hstarts
  cases hwf with
  | finish => exact absurd (List.cons_prefix_cons.mp hstarts).1 (by decide)
  | formData hts =>
    cases h with
    | here => exact absurd hm (lt_irrefl 0)
    | next h hct => exact (show 2 ≤ contentDfd.length by decide).trans (Nat.le_add_right _ _)

theorem PostBody.cutsOk_iff (b : PostBody) {d : List UInt8} (hd : d ≠ []) (cs : List (List UInt8)) :
    (∀ pre post, (b.line ++ d) :: cs = pre ++ post → pre ≠ [] → post ≠ [] →
      b.CutAt pre.flatten.length) ↔
      CutsOk b.line b.tokens (d :: cs) := by
  constructor
  · intro h pre post heq hpre hpost
    obtain ⟨c, pre, rfl⟩ := List.exists_cons_of_ne_nil hpre
    obtain ⟨rfl, rfl⟩ := List.cons.inj heq
    obtain ⟨m, us, -, hm, hcut⟩ := h ((b.line ++ d) :: pre) post rfl (List.cons_ne_nil _ _) hpost
    simp only [List.flatten_cons, List.length_append, Nat.add_assoc] at hm ⊢
    rw [Nat.add_left_cancel hm]
    exact ⟨us, hcut⟩
  · intro h pre post heq hpre hpost
    obtain ⟨c, pre, rfl⟩ := List.exists_cons_of_ne_nil hpre
    obtain ⟨rfl, rfl⟩ := List.cons.inj heq
    obtain ⟨us, hcut⟩ := h (d :: pre) post rfl (List.cons_ne_nil _ _) hpost
    have hpos := List.length_pos_iff.mpr hd
    simp only [List.flatten_cons, List.length_append] at hcut ⊢
    exact ⟨_, us, by omega, Nat.add_assoc _ _ _, hcut⟩

theorem joinValues_boundary_iff (line : List UInt8) (es fs : List PostElement) :
    joinValues (⟨.boundary, line⟩ :: es) = joinValues (⟨.boundary, line⟩ :: fs)
      ↔ Same .boundary es fs := by
  have hne : (⟨.boundary, line⟩ : PostElement).etype ≠ .value := fun h => by cases h
  rw [joinValues_cons_of_ne hne, joinValues_cons_of_ne hne, Same, if_neg (fun h => by cases h)]
  exact ⟨fun h => (List.cons.inj h).2, fun h => congrArg _ h⟩

/-- **本体を分けて渡しても同じなのは、どの切れ目も切ってよい位置にあるとき、そのときに限る。** -/
theorem PostBody.chunksAgree_iff (hcb : ∀ a e b, (cb a e b).1 = 0) (b : PostBody) (app : σ)
    (hcs : ∀ c ∈ cs, c ≠ []) (hflat : cs.flatten = b.render) :
    ChunksAgree cb app cs ↔
      ∀ pre post, cs = pre ++ post → pre ≠ [] → post ≠ [] → b.CutAt pre.flatten.length := by
  obtain ⟨c, cs, rfl⟩ : ∃ c cs', cs = c :: cs' := by
    refine List.exists_cons_of_ne_nil fun hnil => ?_
    rw [hnil, PostBody.render] at hflat
    exact b.boundaryLine.ne_nil (List.append_eq_nil_iff.mp hflat.symm).1
  have hcs' : ∀ c ∈ cs, c ≠ [] := fun c hc => hcs c (List.mem_cons_of_mem _ hc)
  constructor
  · intro hagree
    obtain ⟨r, r', hr, hr', hret, hjoin⟩ := hagree (fun _ _ => 0) (fun _ => 0)
    obtain ⟨r₃, hr₃, -, -, hels₃⟩ := b.read hcb (fun _ => 0) app
    rw [hflat] at hr'
    obtain rfl := Option.some.inj (hr₃.symm.trans hr')
    obtain ⟨r₁, r₂, hparse, hret₁, hfeed, hret₂, hevents⟩ := feedChunks_inv hr hret
    -- 0 が返るので、初めの buffer は区切りの行と改行を含む
    obtain ⟨line, d, rfl, hline, hd⟩ := postDataParser_located hparse hret₁
    rw [List.flatten_cons, List.append_assoc, PostBody.render] at hflat
    have hlen : line.length = b.line.length := by
      have hfind := hline.find (hd.trans (List.prefix_append d cs.flatten))
      rw [hflat, b.boundaryLine.find b.starts] at hfind
      exact (Option.some.inj hfind).symm
    obtain ⟨rfl, hrest⟩ := List.append_inj hflat hlen
    have hdne : d ≠ [] := by
      rintro rfl
      exact absurd hd.length_le (by decide)
    obtain ⟨s, hs, hi, hel, hstart⟩ := postDataParser_start (fun _ => 0) hcb b.boundaryLine hd app
    rw [hstart] at hparse
    rw [b.cutsOk_iff hdne]
    by_contra hbad
    obtain ⟨es, hels, hno⟩ := read_bad hcb (feedChunks_bad hcb cs hcs') b.wf hs
      (by rw [hi, List.length_append]; exact Nat.le_add_right _ _)
        (by rw [hi, List.drop_left]) hdne hcs'
      hrest hbad .void hparse hret₁ hfeed hret₂
    refine hno ((joinValues_boundary_iff b.line _ _).mp ?_)
    rw [← hels₃, ← hjoin, hevents, elements_append, hels, hel]
    rfl
  · intro hcuts mem beyond
    rw [List.flatten_cons, PostBody.render] at hflat
    obtain ⟨d, rfl, hd⟩ : ∃ d, c = b.line ++ d ∧ crlf <+: d := by
      by_cases hnil : cs = []
      · rw [hnil, List.flatten_nil, List.append_nil] at hflat
        exact ⟨_, hflat, b.starts⟩
      · obtain ⟨m, us, hm, hlen, hcut⟩ := hcuts [c] cs rfl (List.cons_ne_nil _ _) hnil
        rw [List.flatten_singleton] at hlen
        refine ⟨_, ?_, b.crlf_take (b.two_le_of_cut hcut hm)⟩
        have h := congrArg (List.take c.length) hflat
        rwa [List.take_left, hlen, List.take_length_add_append] at h
    have hdne : d ≠ [] := by
      rintro rfl
      exact absurd hd.length_le (by decide)
    rw [List.append_assoc] at hflat
    have hrest := List.append_cancel_left hflat
    have hok := (b.cutsOk_iff hdne cs).mp hcuts
    obtain ⟨s, hs, hi, hel, hstart⟩ := postDataParser_start (mem 0) hcb b.boundaryLine hd app
    obtain ⟨es, e', us, hemits, hus⟩ := exists_emits (c := d) b.wf hrest fun hne => by
      have h := hok [d] cs rfl (List.cons_ne_nil _ _) hne
      rwa [List.flatten_singleton] at h
    obtain ⟨r, hr, hret, hctx, hts, hels⟩ := read_emits hcb (mem 0) hemits hs b.wf
      (show s.i ≤ (b.line ++ d).length by rw [hi, List.length_append]; exact Nat.le_add_right _ _)
      (by rw [hi, List.drop_left, ← hrest, List.take_left]) .void
    rw [← hstart] at hr
    obtain ⟨r', hr', hret', hsame⟩ := feedChunks_good hcb mem cs (0 + 1) r.app hts hus
      (hok.tail hemits.cut)
    rw [← hctx] at hr'
    obtain ⟨r₃, hr₃, -, -, hels₃⟩ := b.read hcb beyond app
    refine ⟨_, r₃, feedChunks_cons hr hret hr', ?_, hret', ?_⟩
    · rw [List.flatten_cons, List.append_assoc, hrest]
      exact hr₃
    · rw [hels₃, elements_append, hels, hel]
      refine (joinValues_boundary_iff b.line _ _).mpr ((hemits.same_iff b.wf _).mpr hsame)

end

/--
**終わりまで読める本体を空でない buffer に分けて渡すとき、memory に依らず一つの buffer と同じ要素が渡るのは、
どの切れ目も、区切りの行の次の要素より後ろの、token の間（型の直後を除く）か値の中にあるとき、そのときに限る。**
-/
theorem chunk_independent_iff {σ : Type*} {cb : PostDataParserAppCb σ}
    (hcb : ∀ a e b, (cb a e b).1 = 0)
    (app : σ) {body : List UInt8} (hbody : Accepted body) {cs : List (List UInt8)}
    (hcs : ∀ c ∈ cs, c ≠ []) (hflat : cs.flatten = body) :
    ChunksAgree cb app cs ↔ ∃ b : PostBody, b.render = body ∧
      ∀ pre post, cs = pre ++ post → pre ≠ [] → post ≠ [] → b.CutAt pre.flatten.length := by
  constructor
  · intro hagree
    obtain ⟨b, hb⟩ := exists_postBody hbody
    exact ⟨b, hb, (b.chunksAgree_iff hcb app hcs (hflat.trans hb.symm)).mp hagree⟩
  · rintro ⟨b, hb, hcuts⟩
    exact (b.chunksAgree_iff hcb app hcs (hflat.trans hb.symm)).mpr hcuts

def PostBody.sample : PostBody where
  line := [45, 45, 97, 98]
  tokens := formTokens [.sample]
  boundaryLine := .of_notMem (by decide) (by decide) (by decide)
  wf := formTokens_tokens _ (by decide)
  starts := by decide

def sampleChunks : List (List UInt8) := [PostBody.sample.render.take 10,
    PostBody.sample.render.drop 10]

theorem sampleChunks_ne_nil : ∀ c ∈ sampleChunks, c ≠ [] := by
  decide +kernel

theorem sampleChunks_flatten : sampleChunks.flatten = PostBody.sample.render := by
  decide +kernel

theorem chunk_independent_iff_sample :
    ChunksAgree (fun (_ : Unit) _ _ => (0, ())) () sampleChunks ↔
      ∃ b : PostBody, b.render = PostBody.sample.render ∧
        ∀ pre post, sampleChunks = pre ++ post → pre ≠ [] → post ≠ [] →
          b.CutAt pre.flatten.length :=
  chunk_independent_iff (fun _ _ _ => rfl) () PostBody.sample.accepted sampleChunks_ne_nil
    sampleChunks_flatten

/-- 要素の途中で切ると、初めの buffer で -1 が返る。 -/
theorem chunks_not_independent :
    ¬∀ (body : List UInt8) (cs : List (List UInt8)), Accepted body → (∀ c ∈ cs, c ≠ []) →
      cs.flatten = body → ChunksAgree (fun (_ : Unit) _ _ => (0, ())) () cs := by
  intro h
  obtain ⟨r, -, hr, -, hret, -⟩ := h _ sampleChunks PostBody.sample.accepted sampleChunks_ne_nil
    sampleChunks_flatten (fun _ _ => 0) fun _ => 0
  have hminus : (feedChunks (fun (_ : Unit) _ _ => (0, ())) (fun _ _ => 0) 0 .init ()
      sampleChunks).map PdpResult.ret = some (-1) := by
    decide +kernel
  rw [hr, Option.map_some, hret] at hminus
  exact absurd hminus (by decide)

end Esq
