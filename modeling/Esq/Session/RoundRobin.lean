import Mathlib.Data.List.Perm.Basic
import Mathlib.Logic.Function.Iterate
import Esq.Infra.Dll
import Esq.Infra.Run

/-!
# worker を順に起こす

`session/worker.c` の `esq_wake_up_worker_thread_rr`。大域の new list に session を繋いだ thread が、
worker を一つ選んで `SIGUSR1` を送る。`esq_worker_ctx_rr` は次に起こす worker を指し、worker が
抜けるたびに NULL に戻る。

* `worker_round_robin` — 一回りの間に、どの worker もちょうど一度ずつ起こされる
-/

namespace Esq

open Infra

/-- `woken` は、これまでに `SIGUSR1` を送った worker である。 -/
structure WorkerThreads where
  next : Nat → Option Nat
  /-- `esq_worker_ctx_list` -/
  list : Option Nat
  /-- `esq_worker_ctx_rr` -/
  rr : Option Nat
  woken : List Nat

/-- `esq_worker_ctx_init` が list に加える所。後で `io_uring_queue_init` が失敗しても、外されない。 -/
def esqWorkerCtxInit (w : WorkerThreads) (ctx : Nat) : WorkerThreads :=
  { w with next := Function.update w.next ctx w.list, list := some ctx }

/-- `ctx` の手前の `pp`。見つからなければ `none`。 -/
def esqWorkerCtxSeek (next : Nat → Option Nat) (ctx : Nat) :
    Nat → Option Nat → Option Nat → Option (Option Nat)
  | n + 1, pp, some p => if p = ctx then some pp else esqWorkerCtxSeek next ctx n (some p) (next p)
  | _, _, _ => none

def esqWorkerCtxDetach (fuel : Nat) (w : WorkerThreads) (ctx : Nat) : WorkerThreads :=
  match esqWorkerCtxSeek w.next ctx fuel none w.list with
  | some pp =>
    { w with
      next := bypass w.next pp (w.next ctx)
      list := bypassEnd w.list pp (w.next ctx)
      rr := none }
  | none => { w with rr := none }

def esqWakeUpWorkerThreadRr (w : WorkerThreads) : WorkerThreads :=
  match w.rr.or w.list with
  | some ctx => { w with rr := w.next ctx, woken := w.woken ++ [ctx] }
  | none => { w with rr := none }

/-- `live` は、始まってまだ抜けていない worker である。 -/
structure ThreadRun where
  w : WorkerThreads
  live : List Nat

def ThreadRun.init : ThreadRun := ⟨⟨fun _ => none, none, none, []⟩, []⟩

inductive ThreadOp where
  | init (ctx : Nat)
  | detach (ctx : Nat)
  | wake

/-- `ctx` は worker の stack にあるので、動いている worker と同じ番地にはならない。 -/
def threadStep (s : ThreadRun) : ThreadOp → Option ThreadRun
  | .init ctx => if ctx ∈ s.live then none else some ⟨esqWorkerCtxInit s.w ctx, ctx :: s.live⟩
  | .detach ctx =>
    if ctx ∈ s.live then some ⟨esqWorkerCtxDetach s.live.length s.w ctx, s.live.erase ctx⟩
    else none
  | .wake => some { s with w := esqWakeUpWorkerThreadRr s.w }

/-- list は `front ++ rest` で、次に起こすのは `rest` の先頭である。 -/
structure WorkerThreads.Ring (w : WorkerThreads) (front rest : List Nat) : Prop where
  linked : Linked w.next w.list (front ++ rest)
  rr : w.rr = rest.head?

section

variable {w : WorkerThreads} {x ctx : Nat} {xs front rest : List Nat}

namespace WorkerThreads.Ring

theorem init (h : w.Ring front rest) (hfree : ctx ∉ front ++ rest) :
    (esqWorkerCtxInit w ctx).Ring (ctx :: front) rest := by
  have hnext : (esqWorkerCtxInit w ctx).next ctx = w.list := Function.update_self ..
  exact ⟨⟨rfl, hnext.symm ▸ h.linked.update_of_notMem hfree _⟩, h.rr⟩

theorem wake (h : w.Ring front (x :: rest)) : (esqWakeUpWorkerThreadRr w).Ring (front ++ [x]) rest ∧
    (esqWakeUpWorkerThreadRr w).woken = w.woken ++ [x] := by
  have hnext := h.linked.next_eq
  unfold esqWakeUpWorkerThreadRr
  rw [h.rr]
  refine ⟨⟨?_, hnext⟩, rfl⟩
  rw [List.append_assoc]
  exact h.linked

/-- NULL の `esq_worker_ctx_rr` は、list の先頭に戻る。 -/
theorem restart (h : w.Ring xs []) : ({ w with rr := w.list } : WorkerThreads).Ring [] xs ∧
    esqWakeUpWorkerThreadRr { w with rr := w.list } = esqWakeUpWorkerThreadRr w := by
  have hlinked := h.linked
  rw [List.append_nil] at hlinked
  refine ⟨⟨hlinked, hlinked.head_eq⟩, ?_⟩
  unfold esqWakeUpWorkerThreadRr
  rw [show w.rr = none from h.rr]
  cases w.list <;> rfl

theorem wake_nil (h : w.Ring [] []) : (esqWakeUpWorkerThreadRr w).Ring [] [] := by
  have hnone : w.rr.or w.list = none := by
    rw [show w.rr = none from h.rr, show w.list = none from h.linked]
    rfl
  unfold esqWakeUpWorkerThreadRr
  rw [hnone]
  exact ⟨h.linked, rfl⟩

theorem wakes : ∀ {xs front : List Nat} {w : WorkerThreads}, w.Ring front (xs ++ rest) →
    (esqWakeUpWorkerThreadRr^[xs.length] w).Ring (front ++ xs) rest ∧
      (esqWakeUpWorkerThreadRr^[xs.length] w).woken = w.woken ++ xs
  | [], front, w, h => by
    rw [List.append_nil, List.append_nil]
    exact ⟨h, rfl⟩
  | x :: xs, front, w, h => by
    obtain ⟨hring, hwoken⟩ := wake h
    obtain ⟨hrest, hall⟩ := wakes hring
    rw [List.append_assoc, List.singleton_append] at hrest
    rw [hwoken, List.append_assoc, List.singleton_append] at hall
    exact ⟨hrest, hall⟩

/-- 一回りすると、どの worker も一度ずつ起こされている。 -/
theorem cycle (h : w.Ring front rest) : ∃ ys front' rest', front' ++ rest' = front ++ rest ∧
    (esqWakeUpWorkerThreadRr^[(front ++ rest).length] w).Ring front' rest' ∧
      (esqWakeUpWorkerThreadRr^[(front ++ rest).length] w).woken = w.woken ++ ys ∧
      ys.Perm (front ++ rest) := by
  rw [List.length_append, Function.iterate_add_apply]
  have hrest : w.Ring front (rest ++ []) := by rwa [List.append_nil]
  obtain ⟨hring, hwoken⟩ := wakes hrest
  generalize esqWakeUpWorkerThreadRr^[rest.length] w = v at hring hwoken
  cases front with
  | nil => exact ⟨rest, rest, [], List.append_nil _, hring, hwoken, .refl _⟩
  | cons x front =>
    obtain ⟨hstart, hsame⟩ := hring.restart
    obtain ⟨hring', hwoken'⟩ := @wakes rest _ _ _ hstart
    rw [List.length_cons, Function.iterate_succ_apply, hsame] at hring' hwoken'
    refine ⟨rest ++ x :: front, x :: front, rest, rfl, hring', ?_, List.perm_append_comm⟩
    rw [← List.append_assoc, ← hwoken]
    exact hwoken'

theorem cycles : ∀ (k : Nat) {front rest : List Nat} {w : WorkerThreads}, w.Ring front rest →
    ∃ ys, (esqWakeUpWorkerThreadRr^[k * (front ++ rest).length] w).woken = w.woken ++ ys ∧
      ys.Perm (List.replicate k (front ++ rest)).flatten
  | 0, _, _, w, _ => ⟨[], by simp, by simp⟩
  | k + 1, _, _, w, h => by
    obtain ⟨ys, front', rest', hsame, hring, hwoken, hperm⟩ := h.cycle
    obtain ⟨zs, hzs, hrest⟩ := cycles k hring
    rw [hsame] at hzs hrest
    refine ⟨ys ++ zs, ?_, ?_⟩
    · rw [Nat.succ_mul, Function.iterate_add_apply, hzs, hwoken, List.append_assoc]
    · rw [List.replicate_succ, List.flatten_cons]
      exact hperm.append hrest

end WorkerThreads.Ring

theorem esqWorkerCtxSeek_eq {next : Nat → Option Nat} : ∀ {as bs : List Nat} {pp p : Option Nat}
    {n : Nat}, Linked next p (as ++ ctx :: bs) → ctx ∉ as → as.length < n →
    esqWorkerCtxSeek next ctx n pp p = some (as.getLast?.or pp)
  | [], bs, pp, p, n + 1, h, _, _ => by
    obtain ⟨rfl, -⟩ := h
    rw [esqWorkerCtxSeek, if_pos rfl]
    rfl
  | a :: as, bs, pp, p, n + 1, h, hnot, hn => by
    obtain ⟨rfl, h⟩ := h
    rw [List.mem_cons, not_or] at hnot
    rw [esqWorkerCtxSeek, if_neg (fun he => hnot.1 he.symm),
      esqWorkerCtxSeek_eq h hnot.2 (Nat.lt_of_succ_lt_succ hn), List.getLast?_cons]
    cases as.getLast? <;> rfl

theorem esqWorkerCtxDetach_ring {as bs : List Nat} {n : Nat}
    (h : Linked w.next w.list (as ++ ctx :: bs)) (hnot : ctx ∉ as) (hn : as.length < n) :
    (esqWorkerCtxDetach n w ctx).Ring (as ++ bs) [] := by
  unfold esqWorkerCtxDetach
  rw [esqWorkerCtxSeek_eq h hnot hn, Option.or_none, h.next_eq]
  refine ⟨?_, rfl⟩
  rw [List.append_nil]
  exact h.bypass

/-- `esq_worker_ctx_list` は動いている worker の列で、`esq_worker_ctx_rr` はその中を指す。 -/
def ThreadRun.Inv (s : ThreadRun) : Prop :=
  ∃ front rest, s.live = front ++ rest ∧ s.w.Ring front rest

theorem ThreadRun.Inv.step {s s' : ThreadRun} {op : ThreadOp} (h : s.Inv)
    (hs : threadStep s op = some s') : s'.Inv := by
  obtain ⟨front, rest, hlive, hring⟩ := h
  cases op with
  | init ctx =>
    rw [threadStep] at hs
    split at hs
    · cases hs
    next hfree =>
    cases hs
    exact ⟨ctx :: front, rest, congrArg _ hlive, hring.init (hlive ▸ hfree)⟩
  | detach ctx =>
    rw [threadStep] at hs
    split at hs
    · next hmem =>
      cases hs
      obtain ⟨as, bs, hsplit⟩ := List.append_of_mem hmem
      have hlinked := hring.linked
      rw [← hlive, hsplit] at hlinked
      have hnot : ctx ∉ as := fun hmem =>
        List.disjoint_of_nodup_append hlinked.nodup hmem List.mem_cons_self
      refine ⟨as ++ bs, [], ?_, esqWorkerCtxDetach_ring hlinked hnot (by simp [hsplit])⟩
      rw [hsplit, List.erase_append_right _ hnot, List.erase_cons_head, List.append_nil]
    · cases hs
  | wake =>
    cases hs
    cases rest with
    | cons x rest => exact ⟨_, rest, by simp [hlive], hring.wake.1⟩
    | nil =>
      obtain ⟨hstart, hsame⟩ := hring.restart
      cases front with
      | nil => exact ⟨[], [], hlive, hring.wake_nil⟩
      | cons x front => exact ⟨[x], front, by simpa using hlive, hsame ▸ hstart.wake.1⟩

/--
**worker の出入りと起床がどんな順に来ても、`esq_worker_ctx_rr` は動いている worker を指すか NULL である。
そこから worker の数の `k` 倍だけ起こすと、どの worker もちょうど `k` 度起こされる。**

起動に失敗した `ctx` も、その stack が無くなった後に、ほかの worker と同じように起こされる。
-/
theorem worker_round_robin {ops : List ThreadOp} {s : ThreadRun}
    (h : runFrom threadStep .init ops = some s) :
    (∀ x ∈ s.w.rr, x ∈ s.live) ∧ (∀ k, ∃ ys,
      (esqWakeUpWorkerThreadRr^[k * s.live.length] s.w).woken = s.w.woken ++ ys ∧
        ys.Perm (List.replicate k s.live).flatten) ∧
    ∀ ctx ∉ s.live, ∃ ys,
      (esqWakeUpWorkerThreadRr^[s.live.length + 1] (esqWorkerCtxInit s.w ctx)).woken
        = s.w.woken ++ ys ∧ ys.Perm (ctx :: s.live) := by
  have hinit : ThreadRun.init.Inv := ⟨[], [], rfl, rfl, rfl⟩
  obtain ⟨front, rest, hlive, hring⟩ := runFrom_invariant' (fun _ _ _ hs => hs.step) hinit h
  rw [hlive]
  refine ⟨fun x hx => ?_, fun k => hring.cycles k, fun ctx hfree => ?_⟩
  · rw [hring.rr] at hx
    exact List.mem_append_right front (List.mem_of_mem_head? hx)
  · obtain ⟨ys, _, _, -, -, hwoken, hperm⟩ := (hring.init hfree).cycle
    exact ⟨ys, hwoken, hperm⟩

/-- 三つの worker のうち一つが抜けた後、二回りする。 -/
theorem worker_round_robin_sample : ∃ s, runFrom threadStep .init
      [.init 1, .init 2, .wake, .init 3, .detach 2] = some s ∧ ∃ ys,
    (esqWakeUpWorkerThreadRr^[2 * s.live.length] s.w).woken = s.w.woken ++ ys ∧
      ys.Perm (List.replicate 2 s.live).flatten := by
  obtain ⟨s, hs⟩ : ∃ s, runFrom threadStep .init
    [.init 1, .init 2, .wake, .init 3, .detach 2] = some s := ⟨_, rfl⟩
  exact ⟨s, hs, (worker_round_robin hs).2.1 2⟩

end

end Esq
