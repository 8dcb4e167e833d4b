import Esq.Bee.Sync
import Mathlib.Data.List.TakeDrop

/-!
# 同期の thread

`esq_bucket_sync_worker` は sprint が 0 を返す間回る。sprint は 20 個送って区切ったときも、cursor が
尽きたときも 0 を返すので、record を送り終えても loop は終わらない。loop を抜けるのは error のときだけである。

* 元の bucket が見つからない。探すときの `ip` と `port` は初期化されていない
* record が断られる。hash を書いた長さは key の長さと比べられるので、全ての `write` が成功しても断られる

したがって全ての record を渡し終えて終わるのは、たまたまこの error が最後の record より後か、最後の
record で起きるときに限る（`sync_worker`）。
-/

namespace Esq

open Infra

/-! ## error になる条件 -/

def SyncTarget.label (p : SyncTarget) : List UInt8 × List UInt8 := (p.hash, p.hashStr)

/-- group の先頭が key の hash に当たり、hash の文字列の長さが key と異なる target がある。 -/
def groupRefuses (hash : HashT) (key : List UInt8) (g : List SyncTarget) : Bool :=
  (g.head?.any fun p => p.hash.isPrefixOf hash.buf) && g.any fun p => p.hashStr.length ≠ key.length

/-- 全ての `write` が成功しても、`bee_bucket_sync_db_item` が断る record。 -/
def SyncSession.refuses (hashOf : List UInt8 → HashT) (s : SyncSession)
    (record : List UInt8 × List UInt8) : Bool :=
  s.groups.any (groupRefuses (hashOf record.1) record.1)

/-- sprint の始めに、元の bucket か KCDB が見つからない。 -/
def SprintIo.misses (sprint : SprintIo) (st : Bee) (s : SyncSession) : Bool :=
  match st.rbFind (s.searchKey sprint) with
  | none => true
  | some p => ((st.bucket p).kcdb 0).isNone || !sprint.sameKcdb

/-! ## 一つの record -/

section

theorem write_full (p : SyncTarget) (fd : Nat) (field : SyncField) (data : List UInt8) (expect : Int)
    (errs : String) : p.write (.full fd) field data expect errs
      = if (data.length : Int) = expect then .ok { p with sent := p.sent ++ data }
        else .error { p with sent := p.sent ++ data, err := some errs } := by
  simp only [SyncTarget.write, TargetIo.full, Int.toNat_natCast, List.take_length, ne_eq, ite_not]

theorem syncSendHeader_full (fd : Nat) (name key value : List UInt8) (p : SyncTarget) :
    ∃ q, syncSendHeader (.full fd) name key value p = .ok q ∧ q.label = p.label := by
  have hfd : (TargetIo.full fd).socket ≠ -1 := by
    show (fd : Int) ≠ -1
    omega
  unfold syncSendHeader
  by_cases hopen : p.socketFd = -1
  · rw [if_pos hopen, if_neg hfd, write_full, if_pos (by rw [length_headerBytes])]
    simp only [ok_bind]
    rw [write_full, if_pos rfl]
    exact ⟨_, rfl, rfl⟩
  · rw [if_neg hopen, write_full, if_pos (by rw [length_headerBytes])]
    exact ⟨_, rfl, rfl⟩

/-- **一つの target に送れるのは、hash の文字列と key の長さが等しいときに限る。** -/
theorem beeBucketSyncDataToTarget_full (fd : Nat) (name key value : List UInt8) (p : SyncTarget) :
    ∃ q, beeBucketSyncDataToTarget (.full fd) name key value p
        = (if p.hashStr.length = key.length then 0 else -1, q) ∧ q.label = p.label := by
  obtain ⟨q, hq, hlabel⟩ := syncSendHeader_full fd name key value p
  have hhash : q.hashStr = p.hashStr := congrArg Prod.snd hlabel
  rw [← hhash]
  unfold beeBucketSyncDataToTarget
  rw [hq]
  simp only [ok_bind]
  rw [write_full]
  by_cases hlen : q.hashStr.length = key.length
  · rw [if_pos hlen, if_pos (by rw [hlen])]
    simp only [ok_bind]
    rw [write_full, if_pos rfl]
    simp only [ok_bind]
    rw [write_full, if_pos rfl]
    exact ⟨_, rfl, hlabel⟩
  · rw [if_neg hlen, if_neg (by simpa using hlen)]
    exact ⟨_, rfl, hlabel⟩

theorem beeBucketSyncDataToTargetList_full (fd : Nat → Nat) (name key value : List UInt8) :
    ∀ (g : List SyncTarget) (i : Nat), ∃ g',
      beeBucketSyncDataToTargetList (fun i => .full (fd i)) name key value i g
        = (if g.any fun p => p.hashStr.length ≠ key.length then -1 else 0, g') ∧
      g'.map SyncTarget.label = g.map SyncTarget.label
  | [], _ => ⟨[], rfl, rfl⟩
  | p :: ps, i => by
    obtain ⟨q, hq, hlabel⟩ := beeBucketSyncDataToTarget_full (fd i) name key value p
    rw [beeBucketSyncDataToTargetList, hq]
    by_cases hlen : p.hashStr.length = key.length
    · obtain ⟨qs, hqs, hlabels⟩ :=
        beeBucketSyncDataToTargetList_full fd name key value ps (i + 1)
      refine ⟨q :: qs, ?_, by rw [List.map_cons, List.map_cons, hlabel, hlabels]⟩
      simp [hlen, hqs]
    · refine ⟨q :: ps, ?_, by rw [List.map_cons, List.map_cons, hlabel]⟩
      simp [hlen]

theorem syncDbItemLoop_full (fd : Nat → Nat) (hash : HashT) (name key value : List UInt8) :
    ∀ (gs : List (List SyncTarget)) (i : Nat), ∃ gs',
      syncDbItemLoop (fun i => .full (fd i)) hash name key value i gs
        = (if gs.any (groupRefuses hash key) then -1 else 0, gs') ∧
      gs'.map (List.map SyncTarget.label) = gs.map (List.map SyncTarget.label)
  | [], _ => ⟨[], rfl, rfl⟩
  | g :: gs, i => by
    rw [syncDbItemLoop]
    by_cases hmatch : (g.head?.any fun p => p.hash.isPrefixOf hash.buf) = true
    · obtain ⟨g', hg, hlabel⟩ := beeBucketSyncDataToTargetList_full fd name key value g i
      rw [if_pos hmatch, hg]
      by_cases hlen : (g.any fun p => p.hashStr.length ≠ key.length) = true
      · refine ⟨g' :: gs, ?_, by rw [List.map_cons, List.map_cons, hlabel]⟩
        have hany : (g :: gs).any (groupRefuses hash key) = true := by
          rw [List.any_cons, groupRefuses, hmatch, hlen]
          rfl
        rw [if_pos hlen, if_pos hany]
        rfl
      · obtain ⟨gs', hgs, hlabels⟩ := syncDbItemLoop_full fd hash name key value gs (i + g'.length)
        refine ⟨g' :: gs', ?_, by rw [List.map_cons, List.map_cons, hlabel, hlabels]⟩
        have hany : (g :: gs).any (groupRefuses hash key) = gs.any (groupRefuses hash key) := by
          have hlen := Bool.eq_false_iff.mpr hlen
          rw [List.any_cons, groupRefuses, hmatch, hlen]
          rfl
        rw [if_neg hlen, hany]
        show ((syncDbItemLoop (fun i => .full (fd i)) hash name key value (i + g'.length) gs).1,
          g' :: (syncDbItemLoop (fun i => .full (fd i)) hash name key value (i + g'.length) gs).2)
            = _
        rw [hgs]
    · obtain ⟨gs', hgs, hlabels⟩ := syncDbItemLoop_full fd hash name key value gs (i + g.length)
      refine ⟨g :: gs', ?_, by rw [List.map_cons, List.map_cons, hlabels]⟩
      have hany : (g :: gs).any (groupRefuses hash key) = gs.any (groupRefuses hash key) := by
        have hmatch := Bool.eq_false_iff.mpr hmatch
        rw [List.any_cons, groupRefuses, hmatch]
        rfl
      rw [if_neg hmatch, hany, hgs]

end

/-! ## sprint -/

structure SameLayout (s s' : SyncSession) : Prop where
  rangeMapName : s'.rangeMapName = s.rangeMapName
  hashStr : s'.hashStr = s.hashStr
  groups : s'.groups.map (List.map SyncTarget.label) = s.groups.map (List.map SyncTarget.label)

section

variable {s s' : SyncSession} {hashOf : List UInt8 → HashT}

theorem SameLayout.refl (s : SyncSession) : SameLayout s s := ⟨rfl, rfl, rfl⟩

theorem SameLayout.trans {s'' : SyncSession} (h : SameLayout s s') (h' : SameLayout s' s'') :
    SameLayout s s'' :=
  ⟨h'.rangeMapName.trans h.rangeMapName, h'.hashStr.trans h.hashStr, h'.groups.trans h.groups⟩

theorem groupRefuses_eq (hash : HashT) (key : List UInt8) (g : List SyncTarget) :
    groupRefuses hash key g
      = ((g.map SyncTarget.label).head?.any (fun l => l.1.isPrefixOf hash.buf) &&
        (g.map SyncTarget.label).any fun l => l.2.length ≠ key.length) := by
  rw [List.head?_map, Option.any_map, List.any_map]
  rfl

theorem SameLayout.refuses (h : SameLayout s s') : s'.refuses hashOf = s.refuses hashOf := by
  have hany : ∀ (gs : List (List SyncTarget)) (record : List UInt8 × List UInt8),
      gs.any (groupRefuses (hashOf record.1) record.1)
        = (gs.map (List.map SyncTarget.label)).any fun ls =>
            ls.head?.any (fun l => l.1.isPrefixOf (hashOf record.1).buf) &&
              ls.any fun l => l.2.length ≠ record.1.length := by
    intro gs record
    rw [List.any_map]
    congr 1
    funext g
    exact groupRefuses_eq _ _ g
  funext record
  unfold SyncSession.refuses
  rw [hany, hany, h.groups]

theorem SameLayout.misses (h : SameLayout s s') (sprint : SprintIo) (st : Bee) :
    sprint.misses st s' = sprint.misses st s := by
  unfold SprintIo.misses SyncSession.searchKey
  rw [h.rangeMapName, h.hashStr]

theorem beeBucketSyncDbItem_full (hashOf : List UInt8 → HashT) (fd : Nat → Nat) (s : SyncSession)
    (key value : List UInt8) : ∃ s', beeBucketSyncDbItem hashOf (fun i => .full (fd i)) s key value
        = (if s.refuses hashOf (key, value) then -1 else 0, s') ∧
      SameLayout s s' ∧ s'.cursor = s.cursor ∧ s'.processed = s.processed := by
  obtain ⟨gs', hgs, hlabels⟩ := syncDbItemLoop_full fd (hashOf key) s.rangeMapName key value s.groups 0
  refine ⟨{ s with groups := gs' }, ?_, ⟨rfl, rfl, hlabels⟩, rfl, rfl⟩
  unfold beeBucketSyncDbItem
  rw [hgs]
  rfl

/-- 断られる record の前まで、または `n` 個まで渡す。 -/
inductive SprintEnds (refused : List UInt8 × List UInt8 → Bool) (n : Nat)
    (cursor : List (List UInt8 × List UInt8)) :
    Int → List (List UInt8 × List UInt8) → List (List UInt8 × List UInt8) → Prop where
  | more (hkept : ∀ x ∈ cursor.take n, refused x = false) :
      SprintEnds refused n cursor 0 (cursor.drop n) (cursor.take n)
  | refused {init rest : List (List UInt8 × List UInt8)} {x : List UInt8 × List UInt8}
      (hcursor : cursor = init ++ x :: rest) (hlen : init.length < n)
      (hkept : ∀ y ∈ init, refused y = false) (hx : refused x = true) :
      SprintEnds refused n cursor (-1) rest (init ++ [x])

theorem SprintEnds.cons {refused : List UInt8 × List UInt8 → Bool} {n : Nat} {r : Int}
    {cursor cursor' offered : List (List UInt8 × List UInt8)} {x : List UInt8 × List UInt8}
    (h : SprintEnds refused n cursor r cursor' offered) (hx : refused x = false) :
    SprintEnds refused (n + 1) (x :: cursor) r cursor' (x :: offered) := by
  cases h with
  | more hkept =>
    refine .more ?_
    intro y hy
    rcases List.mem_cons.mp hy with rfl | hy
    · exact hx
    · exact hkept y hy
  | @refused init _ z hcursor hlen hkept hz =>
    subst hcursor
    show SprintEnds refused (n + 1) ((x :: init) ++ z :: cursor') (-1) cursor' ((x :: init) ++ [z])
    refine .refused rfl (Nat.succ_lt_succ hlen) ?_ hz
    intro y hy
    rcases List.mem_cons.mp hy with rfl | hy
    · exact hx
    · exact hkept y hy

theorem sprintLoop_full (fd : Nat → Nat → Nat) : ∀ (n : Nat) (s : SyncSession),
    ∃ r s' offered, sprintLoop hashOf (fun i j => .full (fd i j)) n s = (r, s', offered) ∧
      SameLayout s s' ∧ SprintEnds (s.refuses hashOf) n s.cursor r s'.cursor offered
  | 0, s => by
    refine ⟨0, s, [], rfl, .refl s, ?_⟩
    exact .more (by simp)
  | n + 1, s => by
    rw [sprintLoop]
    cases hc : s.cursor with
    | nil =>
      refine ⟨0, s, [], rfl, .refl s, ?_⟩
      rw [hc]
      exact .more (by simp)
    | cons record rest =>
      obtain ⟨key, value⟩ := record
      obtain ⟨s1, hitem, hsame, hcur, -⟩ := beeBucketSyncDbItem_full hashOf
        (fd s.processed) { s with cursor := rest } key value
      have hsame : SameLayout s s1 := ⟨hsame.rangeMapName, hsame.hashStr, hsame.groups⟩
      have hcur : s1.cursor = rest := hcur
      dsimp only
      rw [hitem]
      cases href : s.refuses hashOf (key, value) with
      | true =>
        refine ⟨-1, s1, [(key, value)], ?_, hsame, ?_⟩
        · have href : SyncSession.refuses hashOf { s with cursor := rest } (key, value) = true := href
          rw [if_pos href]
          rfl
        · rw [hcur]
          show SprintEnds _ (n + 1) ([] ++ (key, value) :: rest) (-1) rest ([] ++ [(key, value)])
          exact .refused rfl (Nat.succ_pos n) (List.forall_mem_nil _) href
      | false =>
        have href' : SyncSession.refuses hashOf { s with cursor := rest } (key, value) = false := href
        obtain ⟨r, s', offered, hrun, hsame', hends⟩ :=
          sprintLoop_full fd n { s1 with processed := s1.processed + 1 }
        have hsame' : SameLayout s1 s' := ⟨hsame'.rangeMapName, hsame'.hashStr, hsame'.groups⟩
        have hends : SprintEnds (s1.refuses hashOf) n s1.cursor r s'.cursor offered := hends
        rw [hcur, hsame.refuses] at hends
        refine ⟨r, s', (key, value) :: offered, ?_, hsame.trans hsame', hends.cons href⟩
        rw [href', if_neg Bool.false_ne_true]
        show ((sprintLoop hashOf _ n { s1 with processed := s1.processed + 1 }).1,
          (sprintLoop hashOf _ n { s1 with processed := s1.processed + 1 }).2.1, (key, value) ::
            (sprintLoop hashOf _ n { s1 with processed := s1.processed + 1 }).2.2) = _
        rw [hrun]

end

/-! ## thread -/

/--
`i` 番目の sprint から始めて、`offered` を渡した後で loop を抜ける。

* `missed`：`k` 回回った後の sprint が、元の bucket を見つけられない
* `refused`：record `x` が断られる
-/
inductive WorkerStops (refused : List UInt8 × List UInt8 → Bool) (misses : Nat → Bool) (i : Nat)
    (cursor : List (List UInt8 × List UInt8)) : List (List UInt8 × List UInt8) → Prop where
  | missed {k : Nat} (hmiss : misses (i + k) = true) (hfound : ∀ j < k, misses (i + j) = false)
      (hkept : ∀ x ∈ cursor.take (bucketSyncSprintSize * k), refused x = false) :
      WorkerStops refused misses i cursor (cursor.take (bucketSyncSprintSize * k))
  | refused {init rest : List (List UInt8 × List UInt8)} {x : List UInt8 × List UInt8}
      (hcursor : cursor = init ++ x :: rest) (hkept : ∀ y ∈ init, refused y = false)
      (hx : refused x = true)
      (hfound : ∀ j, bucketSyncSprintSize * j ≤ init.length → misses (i + j) = false) :
      WorkerStops refused misses i cursor (init ++ [x])

section

variable {refused : List UInt8 × List UInt8 → Bool} {misses : Nat → Bool} {i : Nat}
  {cursor offered : List (List UInt8 × List UInt8)}

theorem take_sprint_succ (cursor : List (List UInt8 × List UInt8)) (k : Nat) :
    cursor.take (bucketSyncSprintSize * (k + 1)) = cursor.take bucketSyncSprintSize
      ++ (cursor.drop bucketSyncSprintSize).take (bucketSyncSprintSize * k) := by
  rw [Nat.mul_succ, Nat.add_comm, List.take_add]

theorem mem_take_of_split {init rest : List (List UInt8 × List UInt8)} {x : List UInt8 × List UInt8}
    {n : Nat} (hcursor : cursor = init ++ x :: rest) (hlen : init.length < n) :
    x ∈ cursor.take n := by
  obtain ⟨m, hm⟩ : ∃ m, n - init.length = m + 1 := ⟨n - init.length - 1, by omega⟩
  rw [hcursor, List.take_append, hm, List.take_succ_cons]
  exact List.mem_append_right _ List.mem_cons_self

theorem WorkerStops.next (hfound : misses i = false)
    (hkept : ∀ x ∈ cursor.take bucketSyncSprintSize, refused x = false)
    (h : WorkerStops refused misses (i + 1) (cursor.drop bucketSyncSprintSize) offered) :
    WorkerStops refused misses i cursor (cursor.take bucketSyncSprintSize ++ offered) := by
  have hshift : ∀ j, i + 1 + j = i + (j + 1) := fun j => by omega
  cases h with
  | @missed k hmiss hbefore hrest =>
    rw [← take_sprint_succ]
    refine .missed (by rw [← hshift]; exact hmiss) ?_ ?_
    · intro j hj
      cases j with
      | zero => exact hfound
      | succ j =>
        rw [← hshift]
        exact hbefore j (by omega)
    · intro x hx
      rw [take_sprint_succ] at hx
      rcases List.mem_append.mp hx with hx | hx
      · exact hkept x hx
      · exact hrest x hx
  | @refused init rest x hcursor hinit hx hbefore =>
    -- 残りがあるから、この sprint では 20 個渡している
    have hlen : (cursor.take bucketSyncSprintSize).length = bucketSyncSprintSize := by
      have hpos : 0 < (cursor.drop bucketSyncSprintSize).length := by
        rw [hcursor, List.length_append, List.length_cons]
        omega
      rw [List.length_drop] at hpos
      rw [List.length_take]
      omega
    have hsplit : cursor = (cursor.take bucketSyncSprintSize ++ init) ++ x :: rest := by
      rw [List.append_assoc, ← hcursor, List.take_append_drop]
    rw [← List.append_assoc]
    refine .refused hsplit ?_ hx ?_
    · intro y hy
      rcases List.mem_append.mp hy with hy | hy
      · exact hkept y hy
      · exact hinit y hy
    · intro j hj
      cases j with
      | zero => exact hfound
      | succ j =>
        rw [← hshift]
        refine hbefore j ?_
        rw [List.length_append, hlen, Nat.mul_succ] at hj
        omega

theorem first_refused_unique : ∀ {init init' rest rest' : List (List UInt8 × List UInt8)}
    {x x' : List UInt8 × List UInt8}, init ++ x :: rest = init' ++ x' :: rest' →
    (∀ y ∈ init, refused y = false) → refused x = true → (∀ y ∈ init', refused y = false) →
    refused x' = true → init = init' ∧ x = x'
  | [], [], _, _, _, _, h, _, _, _, _ => ⟨rfl, (List.cons.inj h).1⟩
  | [], y :: init', _, _, x, _, h, _, hx, hinit', _ => by
    have hy := hinit' y List.mem_cons_self
    rw [← (List.cons.inj h).1, hx] at hy
    cases hy
  | y :: init, [], _, _, _, x', h, hinit, _, _, hx' => by
    have hy := hinit y List.mem_cons_self
    rw [(List.cons.inj h).1, hx'] at hy
    cases hy
  | y :: init, y' :: init', _, _, _, _, h, hinit, hx, hinit', hx' => by
    obtain ⟨rfl, htail⟩ := List.cons.inj h
    obtain ⟨rfl, hxx⟩ := first_refused_unique htail (fun z hz => hinit z (List.mem_cons_of_mem y hz)) hx
      (fun z hz => hinit' z (List.mem_cons_of_mem y hz)) hx'
    exact ⟨rfl, hxx⟩

end

section

variable {hashOf : List UInt8 → HashT} {fd : Nat → Nat → Nat} {sprint : Nat → SprintIo} {st : Bee}
  {offered : List (List UInt8 × List UInt8)}

inductive WorkerTurn (hashOf : List UInt8 → HashT) (fd : Nat → Nat → Nat) (sprint : Nat → SprintIo)
    (st : Bee) (i : Nat) (s : SyncSession) : Prop where
  | missed (hmiss : (sprint i).misses st s = true)
      (hstop : ∀ fuel, esqBucketSyncWorker hashOf (fun i j => .full (fd i j)) sprint st (fuel + 1) i s
        = some [])
  | refused {init rest : List (List UInt8 × List UInt8)} {x : List UInt8 × List UInt8}
      (hfound : (sprint i).misses st s = false) (hcursor : s.cursor = init ++ x :: rest)
      (hlen : init.length < bucketSyncSprintSize)
      (hkept : ∀ y ∈ init, s.refuses hashOf y = false) (hx : s.refuses hashOf x = true)
      (hstop : ∀ fuel, esqBucketSyncWorker hashOf (fun i j => .full (fd i j)) sprint st (fuel + 1) i s
        = some (init ++ [x]))
  | more {s' : SyncSession} (hfound : (sprint i).misses st s = false) (hsame : SameLayout s s')
      (hcursor : s'.cursor = s.cursor.drop bucketSyncSprintSize)
      (hkept : ∀ x ∈ s.cursor.take bucketSyncSprintSize, s.refuses hashOf x = false)
      (hnext : ∀ fuel, esqBucketSyncWorker hashOf (fun i j => .full (fd i j)) sprint st (fuel + 1) i s
        = (esqBucketSyncWorker hashOf (fun i j => .full (fd i j)) sprint st fuel (i + 1) s').map
          fun rest => s.cursor.take bucketSyncSprintSize ++ rest)

theorem sprint0_eq (sprint : SprintIo) (io : Nat → Nat → TargetIo) (s : SyncSession) :
    (sprint.misses st s = true ∧ ∃ s', beeBucketSyncSessionSprint0 hashOf io sprint st s = (-1, s', []))
      ∨ (sprint.misses st s = false ∧ beeBucketSyncSessionSprint0 hashOf io sprint st s
        = sprintLoop hashOf io bucketSyncSprintSize s) := by
  unfold SprintIo.misses beeBucketSyncSessionSprint0
  cases st.rbFind (s.searchKey sprint) with
  | none => exact Or.inl ⟨rfl, _, rfl⟩
  | some p =>
    dsimp only
    cases hdb : ((st.bucket p).kcdb 0).isNone with
    | true => exact Or.inl ⟨rfl, _, rfl⟩
    | false =>
      cases hsame : sprint.sameKcdb with
      | false => exact Or.inl ⟨rfl, _, rfl⟩
      | true => exact Or.inr ⟨rfl, rfl⟩

theorem workerTurn (hashOf : List UInt8 → HashT) (fd : Nat → Nat → Nat) (sprint : Nat → SprintIo)
    (st : Bee) (i : Nat) (s : SyncSession) : WorkerTurn hashOf fd sprint st i s := by
  rcases sprint0_eq (sprint i) (fun i j => .full (fd i j)) s with ⟨hmiss, s', heq⟩ | ⟨hfound, heq⟩
  · refine .missed hmiss fun fuel => ?_
    rw [esqBucketSyncWorker, heq]
    rfl
  · obtain ⟨r, s', offered, hloop, hsame, hends⟩ := sprintLoop_full fd bucketSyncSprintSize s
    rw [hloop] at heq
    generalize hc : s'.cursor = cursor' at hends
    cases hends with
    | more hkept =>
      refine .more hfound hsame hc hkept fun fuel => ?_
      rw [esqBucketSyncWorker, heq]
      rfl
    | refused hcursor hlen hkept hx =>
      refine .refused hfound hcursor hlen hkept hx fun fuel => ?_
      rw [esqBucketSyncWorker, heq]
      rfl

theorem workerStops_of_eq_some : ∀ {fuel i : Nat} {s : SyncSession}
    {offered : List (List UInt8 × List UInt8)},
    esqBucketSyncWorker hashOf (fun i j => .full (fd i j)) sprint st fuel i s = some offered →
    WorkerStops (s.refuses hashOf) (fun j => (sprint j).misses st s) i s.cursor offered
  | 0, _, _, _, h => by cases h
  | fuel + 1, i, s, offered, h => by
    cases workerTurn hashOf fd sprint st i s with
    | missed hmiss hstop =>
      rw [hstop fuel] at h
      cases h
      show WorkerStops _ _ i s.cursor (s.cursor.take (bucketSyncSprintSize * 0))
      exact .missed hmiss (fun j hj => absurd hj (Nat.not_lt_zero j)) (by simp)
    | refused hfound hcursor hlen hkept hx hstop =>
      rw [hstop fuel] at h
      cases h
      refine .refused hcursor hkept hx fun j hj => ?_
      have hj0 : j = 0 := by
        unfold bucketSyncSprintSize at hj hlen
        omega
      subst hj0
      exact hfound
    | @more s' hfound hsame hcursor hkept hnext =>
      rw [hnext fuel, Option.map_eq_some_iff] at h
      obtain ⟨rest, hrest, rfl⟩ := h
      have hstops := workerStops_of_eq_some hrest
      simp only [hsame.refuses, hsame.misses, hcursor] at hstops
      exact hstops.next hfound hkept

theorem eq_some_of_missed : ∀ {k i : Nat} {s : SyncSession},
    (sprint (i + k)).misses st s = true → (∀ j < k, (sprint (i + j)).misses st s = false) →
    (∀ x ∈ s.cursor.take (bucketSyncSprintSize * k), s.refuses hashOf x = false) →
    esqBucketSyncWorker hashOf (fun i j => .full (fd i j)) sprint st (k + 1) i s
      = some (s.cursor.take (bucketSyncSprintSize * k))
  | k, i, s, hmiss, hbefore, hkept => by
    cases workerTurn hashOf fd sprint st i s with
    | missed hmiss' hstop =>
      have hk : k = 0 := by
        by_contra hk
        have := hbefore 0 (Nat.pos_of_ne_zero hk)
        rw [Nat.add_zero, hmiss'] at this
        cases this
      subst hk
      exact hstop 0
    | @refused init rest x hfound hcursor hlen hkept' hx hstop =>
      cases k with
      | zero =>
        rw [Nat.add_zero, hfound] at hmiss
        cases hmiss
      | succ k =>
        -- 断られる record は、渡すはずの record の中に無い
        have hlt : init.length < bucketSyncSprintSize * (k + 1) := by
          rw [Nat.mul_succ]
          omega
        have hkeep := hkept x (mem_take_of_split hcursor hlt)
        rw [hx] at hkeep
        cases hkeep
    | @more s' hfound hsame hcursor hkept' hnext =>
      cases k with
      | zero =>
        rw [Nat.add_zero, hfound] at hmiss
        cases hmiss
      | succ k =>
        have hrest := eq_some_of_missed (k := k) (i := i + 1) (s := s')
          (by
            rw [hsame.misses, Nat.add_assoc, Nat.add_comm 1]
            exact hmiss)
          (by
            intro j hj
            rw [hsame.misses, Nat.add_assoc, Nat.add_comm 1]
            exact hbefore (j + 1) (by omega))
          (by
            intro x hx
            rw [hcursor] at hx
            rw [hsame.refuses]
            refine hkept x ?_
            rw [take_sprint_succ]
            exact List.mem_append_right _ hx)
        rw [hnext, hrest, take_sprint_succ, hcursor]
        rfl

theorem exists_eq_some_of_refused (n : Nat) : ∀ {i : Nat} {s : SyncSession}
    {init rest : List (List UInt8 × List UInt8)} {x : List UInt8 × List UInt8}, init.length = n →
    s.cursor = init ++ x :: rest → (∀ y ∈ init, s.refuses hashOf y = false) →
    s.refuses hashOf x = true →
    (∀ j, bucketSyncSprintSize * j ≤ init.length → (sprint (i + j)).misses st s = false) →
    ∃ fuel, esqBucketSyncWorker hashOf (fun i j => .full (fd i j)) sprint st fuel i s
      = some (init ++ [x]) := by
  induction n using Nat.strong_induction_on with
  | _ n ih =>
    intro i s init rest x hn hcursor hkept hx hbefore
    cases workerTurn hashOf fd sprint st i s with
    | missed hmiss hstop =>
      have hfound := hbefore 0 (by omega)
      rw [Nat.add_zero, hmiss] at hfound
      cases hfound
    | refused hfound hcursor' hlen hkept' hx' hstop =>
      obtain ⟨rfl, rfl⟩ := first_refused_unique (hcursor.symm.trans hcursor') hkept hx hkept' hx'
      exact ⟨1, hstop 0⟩
    | @more s' hfound hsame hcursor' hkept' hnext =>
      -- 断られる record は次の sprint より後にある
      have hlen : bucketSyncSprintSize ≤ init.length := by
        by_contra hlt
        have hkeep := hkept' x (mem_take_of_split hcursor (by omega))
        rw [hx] at hkeep
        cases hkeep
      have htake : s.cursor.take bucketSyncSprintSize = init.take bucketSyncSprintSize := by
        rw [hcursor, List.take_append_of_le_length hlen]
      have hdrop : s'.cursor = init.drop bucketSyncSprintSize ++ x :: rest := by
        rw [hcursor', hcursor, List.drop_append_of_le_length hlen]
      have hpos : 0 < bucketSyncSprintSize := by decide
      obtain ⟨fuel, hfuel⟩ := ih (init.drop bucketSyncSprintSize).length
        (by
          rw [List.length_drop]
          omega)
        (i := i + 1) rfl hdrop
        (by
          intro y hy
          rw [hsame.refuses]
          exact hkept y (List.mem_of_mem_drop hy))
        (by
          rw [hsame.refuses]
          exact hx)
        (by
          intro j hj
          rw [hsame.misses, Nat.add_assoc, Nat.add_comm 1]
          refine hbefore (j + 1) ?_
          rw [List.length_drop] at hj
          rw [Nat.mul_succ]
          omega)
      refine ⟨fuel + 1, ?_⟩
      rw [hnext, hfuel, Option.map_some, htake, ← List.append_assoc, List.take_append_drop]

end

/-! ## 主定理 -/

/-- thread は全ての record を一度ずつ渡して終わる。 -/
def OffersAll (hashOf : List UInt8 → HashT) (fd : Nat → Nat → Nat) (sprint : Nat → SprintIo)
    (st : Bee) (s : SyncSession) : Prop :=
  ∃ fuel, esqBucketSyncWorker hashOf (fun i j => .full (fd i j)) sprint st fuel 0 s = some s.cursor

/--
全ての record を渡した後で、初めて error になる。

* 最後の record だけが断られ、そこまでの sprint は元の bucket を見つける
* どの record も断られず、最後の record を渡した後の sprint が元の bucket を見つけられない
-/
inductive FailsAfterLast (refused : List UInt8 × List UInt8 → Bool) (misses : Nat → Bool)
    (records : List (List UInt8 × List UInt8)) : Prop where
  | refused {init : List (List UInt8 × List UInt8)} {last : List UInt8 × List UInt8}
      (hlast : records = init ++ [last]) (hkept : ∀ y ∈ init, refused y = false)
      (hx : refused last = true)
      (hfound : ∀ j, bucketSyncSprintSize * j ≤ init.length → misses j = false)
  | missed {k : Nat} (hlen : records.length ≤ bucketSyncSprintSize * k) (hmiss : misses k = true)
      (hfound : ∀ j < k, misses j = false) (hkept : ∀ x ∈ records, refused x = false)

theorem WorkerStops.failsAfterLast {refused : List UInt8 × List UInt8 → Bool} {misses : Nat → Bool}
    {records offered : List (List UInt8 × List UInt8)}
    (h : WorkerStops refused misses 0 records offered) (hall : offered = records) :
    FailsAfterLast refused misses records := by
  cases h with
  | @missed k hmiss hfound hkept =>
    simp only [Nat.zero_add] at hmiss hfound
    rw [hall] at hkept
    exact .missed ((List.take_eq_self_iff _).mp hall) hmiss hfound hkept
  | refused hcursor hkept hx hfound =>
    simp only [Nat.zero_add] at hfound
    exact .refused hall.symm hkept hx hfound

/--
**全ての `write` が成功しても、thread が全ての record を一度ずつ渡して終わるのは、渡し終えた後に
error になるときに限る。**
-/
theorem sync_worker (hashOf : List UInt8 → HashT) (fd : Nat → Nat → Nat) (sprint : Nat → SprintIo)
    (st : Bee) (s : SyncSession) :
    OffersAll hashOf fd sprint st s ↔
      FailsAfterLast (s.refuses hashOf) (fun j => (sprint j).misses st s) s.cursor := by
  constructor
  · rintro ⟨fuel, hrun⟩
    exact (workerStops_of_eq_some hrun).failsAfterLast rfl
  · intro h
    cases h with
    | @refused init last hlast hkept hx hfound =>
      have hfound : ∀ j, bucketSyncSprintSize * j ≤ init.length →
          (sprint (0 + j)).misses st s = false := by
        intro j hj
        rw [Nat.zero_add]
        exact hfound j hj
      rw [OffersAll, hlast]
      exact exists_eq_some_of_refused init.length rfl hlast hkept hx hfound
    | @missed k hlen hmiss hfound hkept =>
      have htake : s.cursor.take (bucketSyncSprintSize * k) = s.cursor := List.take_of_length_le hlen
      have hmiss : (sprint (0 + k)).misses st s = true := by
        rw [Nat.zero_add]
        exact hmiss
      have hfound : ∀ j < k, (sprint (0 + j)).misses st s = false := by
        intro j hj
        rw [Nat.zero_add]
        exact hfound j hj
      have hkept : ∀ x ∈ s.cursor.take (bucketSyncSprintSize * k), s.refuses hashOf x = false := by
        rw [htake]
        exact hkept
      have hrun : esqBucketSyncWorker hashOf (fun i j => .full (fd i j)) sprint st (k + 1) 0 s
          = _ := eq_some_of_missed hmiss hfound hkept
      rw [htake] at hrun
      exact ⟨k + 1, hrun⟩

/-- record が一つの bucket を、空の hash の target に同期する。 -/
def SyncSession.sample : SyncSession where
  rangeMapName := [97]
  hashStr := [120]
  groups := [[.sample]]
  cursor := [([1], timevalOf 1)]

/-- 元の bucket は開いたままで、断られる record も無いのに、thread は終わらない。 -/
theorem sync_worker_endless :
    ¬ OffersAll (fun _ => ⟨List.replicate 32 0, by decide⟩) (fun _ _ => 3)
      (fun _ => { ip := 0, port := 0, sameKcdb := true }) (.prepared [1] (timevalOf 1)) .sample := by
  rintro ⟨fuel, hrun⟩
  have hfails := (workerStops_of_eq_some hrun).failsAfterLast rfl
  cases hfails with
  | @refused init last hlast hkept hx hfound =>
    obtain ⟨-, hlast⟩ := List.append_inj' (show [] ++ [([1], timevalOf 1)] = init ++ [last] from hlast)
      rfl
    cases hlast
    revert hx
    decide +kernel
  | @missed k hlen hmiss hfound hkept =>
    revert hmiss
    decide +kernel

end Esq
