import Esq.H2esq.Stream

/-!
# stream の生き死に

続きの header block に header が無い限り、callback はプロセスを終わらせない。
接続の列は、始まってまだ閉じていない stream をちょうど並べ、どの stream も一度だけ `free` される。

続きの header block の header は `h2esq_stream_on_header` に `HEADERS` として渡り、
そこで `esq_design_error` に至る。
-/

namespace Esq

open Infra

/-! ## 求めること -/

def NgStream.Open : NgStream → Prop
  | .block _ _ => True
  | .ready => True
  | _ => False

def NgStream.Named : NgStream → Prop
  | .block _ method => method = true
  | .ready => True
  | _ => False

/-- 列は開いている stream をちょうど並べ、閉じた stream は一度だけ `free` されている。 -/
structure H2Safe (w : H2World) : Prop where
  alive : ∀ fault, w.phase ≠ .exited fault
  list : ∃ xs, IsDll w.links w.ends xs ∧ (∀ p, p ∈ xs ↔ p < w.begun ∧ p ∉ w.freed) ∧
    (w.phase = .running → ∀ id, (w.ng id).Open ↔ ∃ p ∈ xs, (w.stream p).id = id)
  once : w.freed.Nodup ∧ ∀ p ∈ w.freed, p < w.begun
  done : w.phase = .gone → ∀ p < w.begun, p ∈ w.freed

def H2Event.Trailer : H2Event → Prop
  | .header frame _ _ _ _ => frame.cat ≠ .request
  | _ => False

/-! ## 不変量 -/

/-- 列の不変量。`xs` は列に並ぶ stream である。 -/
structure H2List (w : H2World) (xs : List Nat) : Prop where
  dll : IsDll w.links w.ends xs
  mem : ∀ p, p ∈ xs ↔ p < w.begun ∧ p ∉ w.freed
  nodup : w.freed.Nodup
  lt : ∀ p ∈ w.freed, p < w.begun

structure H2Shared (userData : Int → Option Nat) (ng : Int → NgStream)
    (stream : Nat → H2esqStream) (xs : List Nat) : Prop where
  /-- 渡した stream は、閉じるまで列にある -/
  user : ∀ id p, userData id = some p → ng id ≠ .closed → p ∈ xs ∧ (stream p).id = id
  /-- 列の stream は渡してあり、開いている -/
  back : ∀ p ∈ xs, userData (stream p).id = some p ∧ (ng (stream p).id).Open
  /-- 開いている stream は渡してある -/
  opened : ∀ id, (ng id).Open → ∃ p, userData id = some p
  /-- 届いた `:method` は控えてある -/
  method : ∀ id p, userData id = some p → (ng id).Named →
    (stream p).headerStrs .method ≠ none

structure H2Inv (w : H2World) (xs : List Nat) : Prop where
  list : H2List w xs
  shared : w.phase = .running → H2Shared w.userData w.ng w.stream xs
  alive : ∀ fault, w.phase ≠ .exited fault
  done : w.phase = .gone → xs = []

theorem h2Inv_init : H2Inv .init [] where
  list := ⟨isDll_empty, by simp [H2World.init], List.nodup_nil, by simp [H2World.init]⟩
  shared := fun _ => ⟨fun _ _ h => (nomatch h), by simp, fun _ h => h.elim, fun _ _ h => nomatch h⟩
  alive := fun _ h => nomatch h
  done := fun h => nomatch h

section

variable {w w' : H2World} {xs : List Nat} {id : Int} {p : Nat} {s : H2esqStream} {r : Int}
  {frame : H2Frame} {env : H2Service} {userData : Int → Option Nat} {ng ng' : Int → NgStream}
  {stream : Nat → H2esqStream} {st : NgStream}

theorem NgStream.Open.ne_closed (h : st.Open) : st ≠ .closed := by
  rintro rfl
  exact h

theorem H2Inv.safe (h : H2Inv w xs) : H2Safe w where
  alive := h.alive
  list := by
    refine ⟨xs, h.list.dll, h.list.mem, fun hrun id => ⟨fun hopen => ?_, ?_⟩⟩
    · obtain ⟨p, hp⟩ := (h.shared hrun).opened id hopen
      exact ⟨p, (h.shared hrun).user id p hp hopen.ne_closed⟩
    · rintro ⟨p, hp, rfl⟩
      exact ((h.shared hrun).back p hp).2
  once := ⟨h.list.nodup, h.list.lt⟩
  done := by
    intro hgone p hp
    by_contra hnot
    have := (h.list.mem p).mpr ⟨hp, hnot⟩
    rw [h.done hgone] at this
    exact nomatch this

theorem H2List.returned (h : H2List w xs)
    (hs : r = 0 → H2Shared w.userData ng w.stream xs) : H2Inv (w.returned ng r) xs := by
  have hphase : (w.returned ng r).phase = if r = 0 then .running else .failing := rfl
  refine ⟨⟨h.dll, h.mem, h.nodup, h.lt⟩, fun hrun => hs ?_, fun fault hf => ?_, fun hg => ?_⟩
  · by_contra hr
    rw [hphase, if_neg hr] at hrun
    exact nomatch hrun
  · rw [hphase] at hf
    split at hf <;> exact nomatch hf
  · rw [hphase] at hg
    split at hg <;> exact nomatch hg

theorem H2Shared.getUserData (h : H2Shared w.userData w.ng w.stream xs)
    (hp : w.getUserData id = some p) :
    w.userData id = some p ∧ p ∈ xs ∧ (w.stream p).id = id := by
  unfold H2World.getUserData at hp
  split at hp
  next => exact nomatch hp
  next hopen => exact ⟨hp, h.user id p hp hopen⟩

theorem H2Shared.getUserData_of_open (h : H2Shared w.userData w.ng w.stream xs)
    (hopen : (w.ng id).Open) : ∃ p, w.getUserData id = some p := by
  obtain ⟨p, hp⟩ := h.opened id hopen
  refine ⟨p, ?_⟩
  unfold H2World.getUserData
  rw [if_neg hopen.ne_closed, hp]

theorem H2Shared.id_inj (h : H2Shared userData ng stream xs) {q : Nat} (hp : p ∈ xs)
    (hq : q ∈ xs) (hid : (stream q).id = (stream p).id) : q = p := by
  have hback := (h.back q hq).1
  rw [hid] at hback
  exact Option.some.inj (hback.symm.trans (h.back p hp).1)

theorem H2Shared.update (h : H2Shared userData ng stream xs) (hopen : (ng id).Open)
    (hst : st.Open) (hmethod : ∀ p, userData id = some p → st.Named →
      (stream p).headerStrs .method ≠ none) :
    H2Shared userData (Function.update ng id st) stream xs := by
  refine ⟨?_, ?_, ?_, ?_⟩
  · intro i p hp hne
    refine h.user i p hp ?_
    by_cases hi : i = id
    · rw [hi]
      exact hopen.ne_closed
    · rw [Function.update_of_ne hi] at hne
      exact hne
  · intro p hp
    refine ⟨(h.back p hp).1, ?_⟩
    by_cases hi : (stream p).id = id
    · rw [hi, Function.update_self]
      exact hst
    · rw [Function.update_of_ne hi]
      exact (h.back p hp).2
  · intro i hi
    refine h.opened i ?_
    by_cases he : i = id
    · rw [he]
      exact hopen
    · rw [Function.update_of_ne he] at hi
      exact hi
  · intro i p hp hnamed
    by_cases he : i = id
    · rw [he, Function.update_self] at hnamed
      exact hmethod p (he ▸ hp) hnamed
    · rw [Function.update_of_ne he] at hnamed
      exact h.method i p hp hnamed

/-! ## stream の書き換え -/

/-- 番号を変えず、控えた header を捨てない書き換え。 -/
structure Kept (s s' : H2esqStream) : Prop where
  id : s'.id = s.id
  header : ∀ idx, s.headerStrs idx ≠ none → s'.headerStrs idx ≠ none

theorem Kept.refl (s : H2esqStream) : Kept s s := ⟨rfl, fun _ h => h⟩

theorem h2esqStreamDupHeader_kept (s : H2esqStream) (idx : H2esqHeader) (value : List UInt8)
    (mem : Bool) : Kept s (h2esqStreamDupHeader s idx value mem).1 := by
  unfold h2esqStreamDupHeader
  split
  next => exact .refl s
  next hnone =>
    split
    next =>
      refine ⟨rfl, fun i hi => ?_⟩
      show Function.update s.headerStrs idx (some value) i ≠ none
      by_cases hidx : i = idx
      · rw [hidx, Function.update_self]
        exact Option.some_ne_none value
      · rw [Function.update_of_ne hidx]
        exact hi
    next => exact .refl s

theorem h2esqStreamDupHeader_stored {idx : H2esqHeader} {value : List UInt8} {mem : Bool}
    (h : (h2esqStreamDupHeader s idx value mem).2 = 0) :
    (h2esqStreamDupHeader s idx value mem).1.headerStrs idx ≠ none := by
  unfold h2esqStreamDupHeader at h ⊢
  split
  next v hv => rw [hv]; exact Option.some_ne_none v
  next hnone =>
    rw [hnone] at h
    dsimp only at h
    split
    next =>
      show Function.update s.headerStrs idx (some value) idx ≠ none
      rw [Function.update_self]
      exact Option.some_ne_none value
    next hmem =>
      rw [if_neg hmem] at h
      exact nomatch h

theorem h2esqStreamRecordHeader_kept (s : H2esqStream) (name value : List UInt8) (mem : Bool)
    (cookie : Int) : Kept s (h2esqStreamRecordHeader s name value mem cookie).1 := by
  unfold h2esqStreamRecordHeader
  split
  next => exact .refl s
  next =>
    split
    next idx _ => exact h2esqStreamDupHeader_kept s idx value mem
    next => exact .refl s

theorem h2esqStreamRecordHeader_method {value : List UInt8} {mem : Bool} {cookie : Int}
    (h : (h2esqStreamRecordHeader s (ascii ":method") value mem cookie).2 = 0) :
    (h2esqStreamRecordHeader s (ascii ":method") value mem cookie).1.headerStrs .method ≠ none := by
  have hne : ascii ":method" ≠ ascii "cookie" := by decide
  have hof : h2esqHeaderOf (ascii ":method") = some .method := by decide
  unfold h2esqStreamRecordHeader at h ⊢
  rw [if_neg hne] at h ⊢
  rw [hof] at h ⊢
  exact h2esqStreamDupHeader_stored h

theorem H2Shared.setStream (h : H2Shared userData ng stream xs) (hk : Kept (stream p) s) :
    H2Shared userData ng (Function.update stream p s) xs := by
  have hid : ∀ q, (Function.update stream p s q).id = (stream q).id := by
    intro q
    by_cases hq : q = p
    · rw [hq, Function.update_self, hk.id]
    · rw [Function.update_of_ne hq]
  refine ⟨?_, ?_, h.opened, ?_⟩
  · intro id q hq hopen
    rw [hid]
    exact h.user id q hq hopen
  · intro q hq
    rw [hid]
    exact h.back q hq
  · intro id q hq hnamed
    have hm := h.method id q hq hnamed
    by_cases hqp : q = p
    · rw [hqp, Function.update_self]
      exact hk.header _ (hqp ▸ hm)
    · rw [Function.update_of_ne hqp]
      exact hm

structure Served (w w' : H2World) : Prop where
  list : ∀ {xs}, H2List w xs → H2List w' xs
  shared : ∀ {xs}, H2Shared w.userData w.ng w.stream xs →
    H2Shared w'.userData w'.ng w'.stream xs
  ng : w'.ng = w.ng

theorem Served.refl (w : H2World) : Served w w := ⟨fun h => h, fun h => h, rfl⟩

theorem findService_served (w : H2World) (p : Nat) (env : H2Service) :
    Served w (w.findService p env).1 := by
  unfold H2World.findService
  split
  next => exact .refl w
  next => exact ⟨fun h => ⟨h.dll, h.mem, h.nodup, h.lt⟩,
      fun h => h.setStream ⟨rfl, fun _ h => h⟩, rfl⟩

theorem requestRecv_served (w : H2World) (p : Nat) (env : H2Service) :
    Served w (h2esqStreamOnRequestRecv w p env).1 := by
  have hfind := findService_served w p env
  unfold h2esqStreamOnRequestRecv
  split
  next => exact .refl w
  next =>
    split
    next heq =>
      rw [heq] at hfind
      exact hfind
    next heq =>
      rw [heq] at hfind
      exact hfind

theorem frameRecvCb_served (w : H2World) (frame : H2Frame) (env : H2Service) :
    Served w (h2esqFrameRecvCb w frame env).1 := by
  unfold h2esqFrameRecvCb
  split
  next =>
    split
    next =>
      split
      next p _ => exact requestRecv_served w p env
      next => exact .refl w
    next => exact .refl w
  next => exact .refl w

/-! ## callback ごと -/

theorem H2List.newStream (h : H2List w xs) (id : Int) :
    H2List (w.newStream id) (w.begun :: xs) := by
  have hnotMem : w.begun ∉ xs := fun hm => Nat.lt_irrefl _ ((h.mem _).mp hm).1
  refine ⟨h.dll.joinHead hnotMem, ?_, h.nodup, fun p hp => Nat.lt_succ_of_lt (h.lt p hp)⟩
  intro p
  show p ∈ w.begun :: xs ↔ p < w.begun + 1 ∧ p ∉ w.freed
  rw [List.mem_cons, h.mem p]
  constructor
  · rintro (rfl | ⟨hlt, hnot⟩)
    · exact ⟨Nat.lt_succ_self _, fun hf => Nat.lt_irrefl _ (h.lt _ hf)⟩
    · exact ⟨Nat.lt_succ_of_lt hlt, hnot⟩
  · rintro ⟨hlt, hnot⟩
    by_cases hp : p = w.begun
    · exact Or.inl hp
    · exact Or.inr ⟨by omega, hnot⟩

theorem H2Shared.newStream (h : H2Shared userData ng stream xs) (hp : p ∉ xs)
    (hidle : ng id = .idle) (hst : st.Open) (hnamed : ¬ st.Named) :
    H2Shared (Function.update userData id (some p)) (Function.update ng id st)
      (Function.update stream p (.new id)) (p :: xs) := by
  have hother : ∀ q ∈ xs, Function.update stream p (.new id) q = stream q :=
    fun q hq => Function.update_of_ne (by rintro rfl; exact hp hq) _ _
  -- 列の stream とは、番号が重ならない
  have hfresh : ∀ q ∈ xs, (stream q).id ≠ id := by
    intro q hq he
    have := (h.back q hq).2
    rw [he, hidle] at this
    exact this
  refine ⟨?_, ?_, ?_, ?_⟩
  · intro i q hq hne
    by_cases hi : i = id
    · rw [hi, Function.update_self] at hq
      cases hq
      rw [Function.update_self]
      exact ⟨List.mem_cons_self, hi.symm⟩
    · rw [Function.update_of_ne hi] at hq hne
      obtain ⟨hmem, hsid⟩ := h.user i q hq hne
      rw [hother q hmem]
      exact ⟨List.mem_cons_of_mem _ hmem, hsid⟩
  · intro q hq
    rcases List.mem_cons.mp hq with rfl | hq
    · rw [Function.update_self]
      show Function.update userData id _ id = _ ∧ (Function.update ng id st id).Open
      rw [Function.update_self, Function.update_self]
      exact ⟨rfl, hst⟩
    · rw [hother q hq, Function.update_of_ne (hfresh q hq), Function.update_of_ne (hfresh q hq)]
      exact h.back q hq
  · intro i hi
    by_cases he : i = id
    · exact ⟨p, by rw [he, Function.update_self]⟩
    · rw [Function.update_of_ne he] at hi ⊢
      exact h.opened i hi
  · intro i q hq hn
    by_cases he : i = id
    · rw [he, Function.update_self] at hn
      exact absurd hn hnamed
    · rw [Function.update_of_ne he] at hq hn
      have hmem := (h.user i q hq (by intro hc; rw [hc] at hn; exact hn)).1
      rw [hother q hmem]
      exact h.method i q hq hn

theorem H2Inv.beginHeaders (h : H2Inv w xs) {mem : Bool}
    (hlegal : w.Legal (.beginHeaders frame mem)) :
    ∃ xs', H2Inv (w.step (.beginHeaders frame mem)) xs' := by
  obtain ⟨hrun, htype, hcase⟩ := hlegal
  have hshared := h.shared hrun
  unfold H2World.step h2esqStreamOnBeginHeaders
  dsimp only
  rw [if_neg (not_not.mpr htype)]
  rcases hcase with ⟨hidle, hcat⟩ | ⟨hready, hcat⟩
  · rw [if_neg (not_not.mpr hcat), hcat]
    split
    next =>
      have hnotMem : w.begun ∉ xs := fun hm => Nat.lt_irrefl _ ((h.list.mem _).mp hm).1
      exact ⟨_, (h.list.newStream frame.streamId).returned fun _ =>
        hshared.newStream hnotMem hidle trivial (by simp [NgStream.Named])⟩
    next =>
      refine ⟨xs, h.list.returned fun hr => ?_⟩
      exact absurd (show nghttp2ErrCallbackFailure = 0 from hr) (by decide)
  · rw [if_pos (by rw [hcat]; decide), hcat]
    refine ⟨xs, h.list.returned fun _ => hshared.update ?_ trivial fun p hp _ => ?_⟩
    · rw [hready]
      trivial
    · exact hshared.method _ p hp (by rw [hready]; trivial)

theorem onHeader_request (r : Int) : ∃ r',
    h2esqStreamOnHeader ⟨.headers, .request, true, r⟩ = .ok r' ∧ (r' = 0 → r = 0) := by
  by_cases hr : r = 0
  · exact ⟨0, by simp [h2esqStreamOnHeader, hr], fun _ => hr⟩
  · refine ⟨nghttp2ErrCallbackFailure, by simp [h2esqStreamOnHeader, hr], fun he => ?_⟩
    exact absurd he (by decide)

theorem H2Inv.header (h : H2Inv w xs) {name value : List UInt8} {mem : Bool} {cookie : Int}
    (hlegal : w.Legal (.header frame name value mem cookie)) (hcat : frame.cat = .request) :
    H2Inv (w.step (.header frame name value mem cookie)) xs := by
  obtain ⟨hrun, htype, method, hblock⟩ := hlegal
  have hshared := h.shared hrun
  have hopen : (w.ng frame.streamId).Open := by rw [hblock]; trivial
  obtain ⟨p, hp⟩ := hshared.getUserData_of_open hopen
  obtain ⟨huser, -, -⟩ := hshared.getUserData hp
  have hkept := h2esqStreamRecordHeader_kept (w.stream p) name value mem cookie
  have hstored := @h2esqStreamRecordHeader_method (w.stream p) value mem cookie
  rcases hrec : h2esqStreamRecordHeader (w.stream p) name value mem cookie with ⟨s, r⟩
  rw [hrec] at hkept
  obtain ⟨r', hr', hzero⟩ := onHeader_request r
  have hcb : h2esqStreamOnHeaderCb w frame name value mem cookie = .ok (w.setStream p s, r') := by
    unfold h2esqStreamOnHeaderCb
    rw [hp, htype, hcat]
    dsimp only
    rw [hrec]
    dsimp only
    rw [hr']
    rfl
  have hlist : H2List (w.setStream p s) xs :=
    ⟨h.list.dll, h.list.mem, h.list.nodup, h.list.lt⟩
  have hset := hshared.setStream hkept
  simp only [H2World.step, hcb]
  refine hlist.returned fun hz => hset.update hopen ?_ fun q hq hnamed => ?_
  · rw [hblock]
    trivial
  · rw [hblock] at hnamed
    obtain rfl : q = p := Option.some.inj (hq.symm.trans huser)
    rcases Bool.or_eq_true_iff.mp hnamed with hm | hm
    · exact hset.method _ q hq (by rw [hblock]; exact hm)
    · rw [Function.update_self]
      obtain rfl : name = ascii ":method" := of_decide_eq_true hm
      rw [hrec] at hstored
      exact hstored (hzero hz)

theorem H2Inv.frameRecv (h : H2Inv w xs) (hlegal : w.Legal (.frameRecv frame env)) :
    H2Inv (w.step (.frameRecv frame env)) xs := by
  obtain ⟨hrun, hblock, -⟩ := hlegal
  have hserved := frameRecvCb_served w frame env
  rcases hcb : h2esqFrameRecvCb w frame env with ⟨w', r⟩
  rw [hcb] at hserved
  have hshared := hserved.shared (h.shared hrun)
  simp only [H2World.step, hcb]
  refine (hserved.list h.list).returned fun _ => ?_
  rw [hserved.ng] at hshared
  by_cases htype : frame.type = .headers
  · obtain ⟨cat, hcat⟩ := hblock htype
    rw [if_pos htype]
    refine hshared.update (by rw [hcat]; trivial) trivial fun p hp _ => ?_
    exact hshared.method _ p hp (by rw [hcat]; rfl)
  · rw [if_neg htype]
    exact hshared

theorem dataChunkRecv_served (hp : w.getUserData id = some p)
    (hmethod : (w.stream p).headerStrs .method ≠ none) (env : H2Service) :
    ∃ w' r, h2esqStreamOnDataChunkRecv w id env = .ok (w', r) ∧ Served w w' := by
  obtain ⟨method, hm⟩ := Option.ne_none_iff_exists'.mp hmethod
  have hfind := findService_served w p env
  unfold h2esqStreamOnDataChunkRecv
  rw [hp]
  dsimp only
  rw [hm]
  dsimp only
  split
  next => exact ⟨_, _, rfl, .refl w⟩
  next =>
    split
    next => exact ⟨_, _, rfl, .refl w⟩
    next =>
      split
      next heq =>
        rw [heq] at hfind
        exact ⟨_, _, rfl, hfind⟩
      next heq =>
        rw [heq] at hfind
        exact ⟨_, _, rfl, hfind⟩

theorem H2Inv.dataChunk (h : H2Inv w xs) (hlegal : w.Legal (.dataChunk id env)) :
    H2Inv (w.step (.dataChunk id env)) xs := by
  obtain ⟨hrun, hready⟩ := hlegal
  have hshared := h.shared hrun
  have hopen : (w.ng id).Open := by rw [hready]; trivial
  obtain ⟨p, hp⟩ := hshared.getUserData_of_open hopen
  obtain ⟨huser, -, -⟩ := hshared.getUserData hp
  have hmethod := hshared.method id p huser (by rw [hready]; trivial)
  obtain ⟨w', r, hcb, hserved⟩ := dataChunkRecv_served hp hmethod env
  simp only [H2World.step, hcb]
  refine (hserved.list h.list).returned fun _ => ?_
  have := hserved.shared hshared
  rw [hserved.ng] at this
  exact this

theorem H2List.close (h : H2List w xs) (hp : p ∈ xs) :
    H2List (h2esqStreamClose w p) (xs.erase p) := by
  obtain ⟨hlt, hnot⟩ := (h.mem p).mp hp
  refine ⟨h.dll.left hp, ?_, ?_, ?_⟩
  · intro q
    show q ∈ xs.erase p ↔ q < w.begun ∧ q ∉ w.freed ++ [p]
    rw [h.dll.nodup.mem_erase_iff, h.mem q, List.mem_append, List.mem_singleton, not_or]
    tauto
  · show (w.freed ++ [p]).Nodup
    refine List.nodup_append.mpr ⟨h.nodup, List.nodup_singleton p, ?_⟩
    intro a ha b hb hab
    rw [hab, List.mem_singleton.mp hb] at ha
    exact hnot ha
  · intro q hq
    rcases List.mem_append.mp hq with hq | hq
    · exact h.lt q hq
    · rw [List.mem_singleton.mp hq]
      exact hlt

theorem H2Shared.close (h : H2Shared userData ng stream xs) (hnodup : xs.Nodup)
    (hp : p ∈ xs) (hid : (stream p).id = id) :
    H2Shared userData (Function.update ng id .closed) stream (xs.erase p) := by
  refine ⟨?_, ?_, ?_, ?_⟩
  · intro i q hq hne
    by_cases hi : i = id
    · rw [hi, Function.update_self] at hne
      exact absurd rfl hne
    · rw [Function.update_of_ne hi] at hne
      obtain ⟨hmem, hsid⟩ := h.user i q hq hne
      refine ⟨hnodup.mem_erase_iff.mpr ⟨?_, hmem⟩, hsid⟩
      rintro rfl
      exact hi (hsid.symm.trans hid)
  · intro q hq
    obtain ⟨hne, hmem⟩ := hnodup.mem_erase_iff.mp hq
    refine ⟨(h.back q hmem).1, ?_⟩
    rw [Function.update_of_ne fun he => hne (h.id_inj hp hmem (he.trans hid.symm))]
    exact (h.back q hmem).2
  · intro i hi
    by_cases he : i = id
    · rw [he, Function.update_self] at hi
      exact hi.elim
    · rw [Function.update_of_ne he] at hi
      exact h.opened i hi
  · intro i q hq hn
    by_cases he : i = id
    · rw [he, Function.update_self] at hn
      exact hn.elim
    · rw [Function.update_of_ne he] at hn
      exact h.method i q hq hn

theorem H2Shared.closeIdle (h : H2Shared userData ng stream xs) (hopen : ¬ (ng id).Open) :
    H2Shared userData (Function.update ng id .closed) stream xs := by
  refine ⟨?_, ?_, ?_, ?_⟩
  · intro i q hq hne
    by_cases hi : i = id
    · rw [hi, Function.update_self] at hne
      exact absurd rfl hne
    · rw [Function.update_of_ne hi] at hne
      exact h.user i q hq hne
  · intro q hq
    refine ⟨(h.back q hq).1, ?_⟩
    rw [Function.update_of_ne (by rintro rfl; exact hopen (h.back q hq).2)]
    exact (h.back q hq).2
  · intro i hi
    by_cases he : i = id
    · rw [he, Function.update_self] at hi
      exact hi.elim
    · rw [Function.update_of_ne he] at hi
      exact h.opened i hi
  · intro i q hq hn
    by_cases he : i = id
    · rw [he, Function.update_self] at hn
      exact hn.elim
    · rw [Function.update_of_ne he] at hn
      exact h.method i q hq hn

theorem H2Inv.close (h : H2Inv w xs) (hlegal : w.Legal (.close id)) :
    ∃ xs', H2Inv (w.step (.close id)) xs' := by
  obtain ⟨hrun, hne⟩ := hlegal
  have hshared := h.shared hrun
  cases hp : w.getUserData id with
  | none =>
    have hopen : ¬ (w.ng id).Open := by
      intro hopen
      obtain ⟨p, hp'⟩ := hshared.getUserData_of_open hopen
      rw [hp] at hp'
      exact nomatch hp'
    simp only [H2World.step, h2esqStreamOnClose, hp]
    exact ⟨xs, ⟨h.list.dll, h.list.mem, h.list.nodup, h.list.lt⟩,
      fun _ => hshared.closeIdle hopen, h.alive, h.done⟩
  | some p =>
    obtain ⟨-, hmem, hid⟩ := hshared.getUserData hp
    have hlist := h.list.close hmem
    simp only [H2World.step, h2esqStreamOnClose, hp]
    refine ⟨xs.erase p, ⟨hlist.dll, hlist.mem, hlist.nodup, hlist.lt⟩,
      fun _ => hshared.close h.list.dll.nodup hmem hid, h.alive, fun hg => ?_⟩
    rw [h.done hg]
    rfl

/-! ## 後始末 -/

theorem H2List.closeAll : ∀ {xs : List Nat} {w : H2World} {fuel : Nat}, H2List w xs →
    xs.length ≤ fuel → ∃ w', h2esqCloseAll fuel w = some w' ∧ H2List w' []
  | [], w, fuel, h, _ => by
    refine ⟨w, ?_, h⟩
    unfold h2esqCloseAll
    rw [show w.ends.head = none from h.dll.1.head_eq]
  | p :: xs, w, fuel, h, hfuel => by
    obtain ⟨fuel, rfl⟩ : ∃ n, fuel = n + 1 := ⟨fuel - 1, by simp at hfuel; omega⟩
    have hnext := h.close (List.mem_cons_self (a := p) (l := xs))
    rw [List.erase_cons_head] at hnext
    have hle : xs.length ≤ fuel := by simpa using hfuel
    obtain ⟨w', hw', hlist⟩ := hnext.closeAll hle
    refine ⟨w', ?_, hlist⟩
    unfold h2esqCloseAll
    rw [show w.ends.head = some p from h.dll.1.head_eq]
    exact hw'

theorem H2Inv.teardown (h : H2Inv w xs) : H2Inv (w.step .teardown) [] := by
  -- 列の長さは、作った stream の数を超えない
  have hlen : xs.length ≤ w.begun := by
    have hsub : xs ⊆ List.range w.begun :=
      fun p hp => List.mem_range.mpr ((h.list.mem p).mp hp).1
    have := (h.list.dll.nodup.subperm hsub).length_le
    rwa [List.length_range] at this
  obtain ⟨w', hw', hlist⟩ := h.list.closeAll hlen
  simp only [H2World.step, hw']
  exact ⟨⟨hlist.dll, hlist.mem, hlist.nodup, hlist.lt⟩, fun hr => (nomatch hr),
    fun _ hf => (nomatch hf), fun _ => rfl⟩

/-! ## 全体 -/

theorem H2Inv.step (h : H2Inv w xs) {e : H2Event} (hlegal : w.Legal e) (he : ¬ e.Trailer) :
    ∃ xs', H2Inv (w.step e) xs' := by
  cases e with
  | beginHeaders frame mem => exact h.beginHeaders hlegal
  | header frame name value mem cookie => exact ⟨xs, h.header hlegal (not_not.mp he)⟩
  | frameRecv frame env => exact ⟨xs, h.frameRecv hlegal⟩
  | dataChunk id env => exact ⟨xs, h.dataChunk hlegal⟩
  | close id => exact h.close hlegal
  | teardown => exact ⟨[], h.teardown⟩

theorem step_trailer {e : H2Event} (hlegal : w.Legal e) (he : e.Trailer) :
    (w.step e).phase = .exited .designError := by
  cases e with
  | header frame name value mem cookie =>
    obtain ⟨-, htype, -⟩ := hlegal
    have hfault : ∀ stream record,
        h2esqStreamOnHeader ⟨frame.type, frame.cat, stream, record⟩ = .error .designError := by
      intro stream record
      rw [htype]
      cases hcat : frame.cat with
      | request => exact absurd hcat he
      | response => rfl
      | pushResponse => rfl
      | headers => rfl
    have hcb : h2esqStreamOnHeaderCb w frame name value mem cookie = .error .designError := by
      unfold h2esqStreamOnHeaderCb
      split
      next =>
        rw [hfault]
        rfl
      next =>
        dsimp only
        rw [hfault]
        rfl
    simp only [H2World.step, hcb]
  | beginHeaders frame mem => exact he.elim
  | frameRecv frame env => exact he.elim
  | dataChunk id env => exact he.elim
  | close id => exact he.elim
  | teardown => exact he.elim

def h2Step (w : H2World) (e : H2Event) : Option H2World := some (w.step e)

theorem h2_safe_iff {events : List H2Event} (h : H2Inv w xs)
    (hlegal : Along h2Step H2World.Legal w events) :
    Throughout h2Step H2Safe w events ↔ ∀ e ∈ events, ¬ e.Trailer := by
  induction events generalizing w xs with
  | nil => exact ⟨fun _ _ he => (nomatch he), fun _ => h.safe⟩
  | cons e events ih =>
    by_cases he : e.Trailer
    · constructor
      · intro hsafe
        exact absurd (step_trailer hlegal.1 he) ((hsafe.2 _ rfl).head.alive _)
      · intro hall
        exact absurd he (hall e List.mem_cons_self)
    · obtain ⟨xs', hinv⟩ := h.step hlegal.1 he
      rw [List.forall_mem_cons, ← ih hinv (hlegal.2 _ rfl)]
      constructor
      · exact fun hsafe => ⟨he, hsafe.2 _ rfl⟩
      · rintro ⟨-, hrest⟩
        refine ⟨h.safe, fun t ht => ?_⟩
        cases ht
        exact hrest

end

/--
**stream の callback。**

nghttp2 が呼びうるどの callback の列でも、次の二つは同じことである。
着くどの状態でもプロセスは終わらず、列は開いている stream をちょうど並べ、どの stream も一度だけ
`free` されていること。続きの header block の header が一つも届かないこと。
-/
theorem h2_callbacks_safe_iff (events : List H2Event)
    (hlegal : Along h2Step H2World.Legal .init events) :
    Throughout h2Step H2Safe .init events ↔ ∀ e ∈ events, ¬ e.Trailer :=
  h2_safe_iff h2Inv_init hlegal

/-! ## 例 -/

instance (w : H2World) : ∀ e, Decidable (w.Legal e)
  | .beginHeaders _ _ => inferInstanceAs (Decidable (_ ∧ _))
  | .header frame _ _ _ _ =>
    haveI : Decidable (∃ method, w.ng frame.streamId = .block frame.cat method) :=
      decidable_of_iff (w.ng frame.streamId = .block frame.cat true ∨
        w.ng frame.streamId = .block frame.cat false)
        ⟨fun h => h.elim (fun h => ⟨_, h⟩) fun h => ⟨_, h⟩, fun ⟨method, h⟩ => by
          cases method with
          | true => exact Or.inl h
          | false => exact Or.inr h⟩
    inferInstanceAs (Decidable (_ ∧ _ ∧ _))
  | .frameRecv frame _ =>
    haveI : Decidable (∃ cat, w.ng frame.streamId = .block cat true) :=
      match h : w.ng frame.streamId with
      | .block cat true => isTrue ⟨cat, rfl⟩
      | .block _ false => isFalse fun ⟨_, h⟩ => nomatch h
      | .idle => isFalse fun ⟨_, h⟩ => nomatch h
      | .ready => isFalse fun ⟨_, h⟩ => nomatch h
      | .closed => isFalse fun ⟨_, h⟩ => nomatch h
    inferInstanceAs (Decidable (_ ∧ _ ∧ _))
  | .dataChunk _ _ => inferInstanceAs (Decidable (_ ∧ _))
  | .close _ => inferInstanceAs (Decidable (_ ∧ _))
  | .teardown => inferInstanceAs (Decidable (_ ∨ _))

instance : DecidablePred H2Event.Trailer
  | .header frame _ _ _ _ => inferInstanceAs (Decidable (frame.cat ≠ .request))
  | .beginHeaders _ _ => isFalse id
  | .frameRecv _ _ => isFalse id
  | .dataChunk _ _ => isFalse id
  | .close _ => isFalse id
  | .teardown => isFalse id

def h2SampleRequest : List H2Event :=
  let frame : H2Frame := ⟨.headers, 1, .request, false⟩
  [.beginHeaders frame true, .header frame (ascii ":method") (ascii "POST") true 0,
    .header frame (ascii ":path") (ascii "/") true 0, .frameRecv frame ⟨none, 0, 0⟩]

/-- 要求と data の後で、stream が閉じ、接続が終わる。 -/
def h2SamplePlain : List H2Event :=
  h2SampleRequest ++ [.dataChunk 1 ⟨some 0, 1, 0⟩, .close 1, .teardown]

theorem h2_callbacks_safe_iff_sample : Throughout h2Step H2Safe .init h2SamplePlain ↔
    ∀ e ∈ h2SamplePlain, ¬ e.Trailer :=
  h2_callbacks_safe_iff h2SamplePlain (by decide +kernel)

/-- 要求の後で、header を一つ持つ続きの block が届く。 -/
def h2SampleTrailer : List H2Event :=
  let frame : H2Frame := ⟨.headers, 1, .headers, true⟩
  h2SampleRequest ++ [.beginHeaders frame true, .header frame (ascii "x") (ascii "y") true 0]

/-- どの callback の列でも安全だとは言えない。 -/
theorem h2_callbacks_not_safe : ¬ ∀ events, Along h2Step H2World.Legal .init events →
    Throughout h2Step H2Safe .init events := by
  intro h
  have hlegal : Along h2Step H2World.Legal .init h2SampleTrailer := by decide +kernel
  have hno := (h2_safe_iff h2Inv_init hlegal).mp (h h2SampleTrailer hlegal)
  exact hno (.header ⟨.headers, 1, .headers, true⟩ (ascii "x") (ascii "y") true 0)
    (by simp [h2SampleTrailer]) (by decide)

end Esq
