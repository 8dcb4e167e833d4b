import Esq.Bee.PonyService

/-!
# socket に渡る byte

`mco/socket.c` の三つの loop が `ESQ_OK` を返すまでに、socket に渡した byte と socket から読んだ byte。

loop は転送した長さを `offset` に数えるが、次の呼び出しにも領域の先頭と全体の長さを渡す。一度の呼び出しで
全体が転送されれば正しく、一部だけ転送されると、続きの代わりに領域の先頭をもう一度転送する。
-/

namespace Esq

open Infra

/-! ## libc の呼び出し -/

inductive Libc where
  | ret (n : Nat)
  | err (errno : Int)
deriving DecidableEq, Repr

def errnoEagain : Int := 11

def errnoEalready : Int := 114

def errnoEinprogress : Int := 115

def retryOn (errnos : List Int) : Libc → Int
  | .ret n => n
  | .err e => if e ∈ errnos then 0 else -1

def osFastOpenSendtoNb : Libc → Int := retryOn [errnoEagain, errnoEinprogress, errnoEalready]

def osWriteNb : Libc → Int := retryOn [errnoEagain, errnoEinprogress]

def osReadNbReturn : Libc → Int := retryOn [errnoEagain]

/-! ## 相手 -/

/--
socket の、相手の側。`plan` は、これからの呼び出しの結果と、その後に fd を仕掛けたときの
`esq_session_set_socket_fd` の戻り値である。
-/
structure SocketPeer where
  plan : List (Libc × Int)
  /-- 次に fd を仕掛けたときの戻り値 -/
  armed : Int
  /-- socket に渡った byte -/
  sent : List UInt8
  /-- 読める byte の列 -/
  stream : Nat → UInt8
  /-- `stream` のうち読み終えた長さ -/
  pos : Nat

namespace SocketPeer

def upcoming (w : SocketPeer) (n : Nat) : List UInt8 := (List.range n).map fun i => w.stream (w.pos + i)

def push (buf : List UInt8) (w : SocketPeer) (n : Nat) : SocketPeer × List UInt8 :=
  ({ w with sent := w.sent ++ buf.take n }, [])

def pull (w : SocketPeer) (n : Nat) : SocketPeer × List UInt8 := ({ w with pos := w.pos + n }, w.upcoming n)

def advance (w : SocketPeer) (plan : List (Libc × Int)) (armed : Int) : SocketPeer := { w with plan, armed }

/-- 長さ `len` の呼び出し。`len` を越えて転送されることは無い。 -/
def transfer (w : SocketPeer) (nb : Libc → Int) (len : Int) (move : SocketPeer → Nat → SocketPeer × List UInt8) :
    Option (SocketPeer × OsResult) :=
  match w.plan with
  | [] => none
  | (.err e, armed) :: plan => some (w.advance plan armed, { r := nb (.err e) })
  | (.ret n, armed) :: plan =>
    if (n : Int) ≤ len then
      let (w, bytes) := move (w.advance plan armed) n
      some (w, { r := nb (.ret n), bytes })
    else none

def answer (w : SocketPeer) : McoCall PonyOs → Option (SocketPeer × OsResult)
  | .os (.fastOpenSendto _ buf) => w.transfer osFastOpenSendtoNb buf.length (push buf)
  | .os (.write _ buf) => w.transfer osWriteNb buf.length (push buf)
  | .os (.read _ len) => w.transfer osReadNbReturn len pull
  | .os _ => none
  | .setSocketFd _ => some (w, { r := w.armed })

end SocketPeer

/-! ## 三つの関数 -/

inductive SocketKind where
  | connectWrite
  | write
  | read
deriving DecidableEq, Repr

namespace SocketKind

def nb : SocketKind → Libc → Int
  | .connectWrite => osFastOpenSendtoNb
  | .write => osWriteNb
  | .read => osReadNbReturn

/--
長さ `data.length` の領域 `data` を渡して `ESQ_OK` が返ったとき、書いたのはちょうど `data` であり、
読んだのはちょうどその長さの byte である。`behind` は領域の後ろの byte で、書き換わらない。
-/
def Right (kind : SocketKind) (fd : Int) (data behind : List UInt8) (w : SocketPeer) : Prop :=
  match kind with
  | .connectWrite => ∀ w', (OnMco.esqMcoSocketConnectWrite fd data).interpret SocketPeer.answer w
      = some (w', esqOk) → w'.sent = w.sent ++ data
  | .write => ∀ w', (OnMco.esqMcoSocketWrite fd data).interpret SocketPeer.answer w
      = some (w', esqOk) → w'.sent = w.sent ++ data
  | .read => ∀ w' mem,
      (OnMco.esqMcoSocketRead fd (data ++ behind) data.length).interpret SocketPeer.answer w
        = some (w', esqOk, mem) →
      mem = w.upcoming data.length ++ behind ∧ w'.pos = w.pos + data.length

def Succeeds (kind : SocketKind) (fd : Int) (data behind : List UInt8) (w : SocketPeer) : Prop :=
  match kind with
  | .connectWrite => ∃ w', (OnMco.esqMcoSocketConnectWrite fd data).interpret SocketPeer.answer w
      = some (w', esqOk)
  | .write => ∃ w', (OnMco.esqMcoSocketWrite fd data).interpret SocketPeer.answer w = some (w', esqOk)
  | .read => ∃ w' mem,
      (OnMco.esqMcoSocketRead fd (data ++ behind) data.length).interpret SocketPeer.answer w
        = some (w', esqOk, mem)

end SocketKind

/-- 初めに転送する呼び出しが `len` byte をすべて転送する。その前の呼び出しは待たされる。 -/
def WholeFirst (nb : Libc → Int) (len : Nat) (plan : List (Libc × Int)) : Prop :=
  ∃ blocked armed rest, plan = blocked ++ (.ret len, armed) :: rest ∧
    ∀ b ∈ blocked, nb b.1 = 0

/-! ## loop の動き -/

/--
`ESQ_OK` までに転送される長さの列。`cl` は待たされた回数、`off` はそれまでに転送した長さである。
-/
inductive Moves (nb : Libc → Int) (len : Nat) :
    Nat → Nat → List (Libc × Int) → List Nat → Prop where
  | last {cl off n : Nat} {armed : Int} {plan : List (Libc × Int)} (hcl : cl < mcoSocketIoMaxRetry)
    (hn : 0 < n) (hoff : off + n = len) : Moves nb len cl off ((.ret n, armed) :: plan) [n]
  | more {cl off n : Nat} {armed : Int} {plan : List (Libc × Int)} {ns : List Nat}
    (hcl : cl < mcoSocketIoMaxRetry) (hn : 0 < n) (hoff : off + n < len)
    (h : Moves nb len cl (off + n) plan ns) :
    Moves nb len cl off ((.ret n, armed) :: plan) (n :: ns)
  | wait {cl off : Nat} {call : Libc} {plan : List (Libc × Int)} {ns : List Nat}
    (hcl : cl < mcoSocketIoMaxRetry) (hcall : nb call = 0)
    (h : Moves nb len (cl + 1) off plan ns) : Moves nb len cl off ((call, 0) :: plan) ns

/-- 長さの列の通りに転送した後の、相手と領域。 -/
def carry (move : SocketPeer → Nat → SocketPeer × List UInt8) :
    SocketPeer → List UInt8 → List Nat → SocketPeer × List UInt8
  | w, mem, [] => (w, mem)
  | w, mem, n :: ns => carry move (move w n).1 (splice mem 0 (move w n).2) ns

/-- loop の呼び出しが `nb` と `move` の通りに答えられる。 -/
structure Moved (io : OnMco.SocketIo) (errnos : List Int) (len : Nat)
    (move : SocketPeer → Nat → SocketPeer × List UInt8) : Prop where
  call : ∀ w : SocketPeer, w.answer (.os io.call) = w.transfer (retryOn errnos) len move
  len : io.len = len
  giveUp : io.giveUp ≠ esqOk
  advance : ∀ (w : SocketPeer) plan armed n, move (w.advance plan armed) n
    = ((move w n).1.advance plan armed, (move w n).2)
  zero : ∀ w, move w 0 = (w, [])

section

variable {io : OnMco.SocketIo} {errnos : List Int} {len cl off n : Nat} {w w' : SocketPeer}
  {move : SocketPeer → Nat → SocketPeer × List UInt8} {mem mem' : List UInt8} {ns : List Nat}
  {plan : List (Libc × Int)} {armed : Int} {call : Libc}

theorem splice_nil (mem : List UInt8) : splice mem 0 [] = mem := by
  unfold splice
  simp

theorem carry_advance (h : Moved io errnos len move) : ∀ (ns : List Nat) (w : SocketPeer) mem,
    carry move (w.advance plan armed) mem ns
      = ((carry move w mem ns).1.advance plan armed, (carry move w mem ns).2)
  | [], w, mem => rfl
  | n :: ns, w, mem => by
    unfold carry
    rw [h.advance]
    exact carry_advance h ns _ _

theorem transfer_wait (h : Moved io errnos len move) (hw : w.plan = (call, armed) :: plan)
    (hcall : retryOn errnos call = 0) :
    w.transfer (retryOn errnos) len move = some (w.advance plan armed, { r := 0 }) := by
  unfold SocketPeer.transfer
  rw [hw]
  cases call with
  | err e => simp only [hcall]
  | ret n =>
    have hn : n = 0 := by
      have : (n : Int) = 0 := hcall
      omega
    subst hn
    simp only [h.zero, hcall]
    rw [if_pos (by omega)]

theorem transfer_ret (h : Moved io errnos len move) (hw : w.plan = (.ret n, armed) :: plan)
    (hn : n ≤ len) : w.transfer (retryOn errnos) len move
      = some ((move w n).1.advance plan armed, { r := n, bytes := (move w n).2 }) := by
  unfold SocketPeer.transfer
  rw [hw]
  simp only [h.advance, retryOn]
  rw [if_pos (by omega)]

theorem interpret_ioLoop (h : Moved io errnos len move) (hcl : cl < mcoSocketIoMaxRetry)
    (hw : w.plan = (call, armed) :: plan) (hcall : retryOn errnos call = 0) :
    (OnMco.ioLoop io cl off mem).interpret SocketPeer.answer w
      = if armed = 0 then
          (OnMco.ioLoop io (cl + 1) off mem).interpret SocketPeer.answer (w.advance plan armed)
        else some (w.advance plan armed, armed, mem) := by
  rw [OnMco.ioLoop, if_neg (not_le.mpr hcl), Co.interpret_ask, h.call, transfer_wait h hw hcall]
  simp only [Option.bind_some, if_true, Co.interpret_ask, SocketPeer.answer, SocketPeer.advance,
    splice_nil]
  by_cases ha : armed = 0
  · simp only [ha, ne_eq, not_true_eq_false, if_false, if_true, Co.interpret_yield]
  · simp only [ha, ne_eq, not_false_eq_true, if_true, if_false, Co.interpret_done]

theorem interpret_ioLoop_ret (h : Moved io errnos len move) (hcl : cl < mcoSocketIoMaxRetry)
    (hw : w.plan = (.ret n, armed) :: plan) (hn : 0 < n) (hle : n ≤ len) :
    (OnMco.ioLoop io cl off mem).interpret SocketPeer.answer w
      = if off + n = len then
          some ((move w n).1.advance plan armed, esqOk, splice mem 0 (move w n).2)
        else if len < off + n then
          some ((move w n).1.advance plan armed, esqErrorLibcall, splice mem 0 (move w n).2)
        else (OnMco.ioLoop io cl (off + n : Nat) (splice mem 0 (move w n).2)).interpret
          SocketPeer.answer ((move w n).1.advance plan armed) := by
  have h0 : ¬ (n : Int) = 0 := by omega
  have h1 : ¬ (n : Int) = -1 := by omega
  have hpos : (0 : Int) < n := by omega
  rw [OnMco.ioLoop, if_neg (not_le.mpr hcl), Co.interpret_ask, h.call, transfer_ret h hw hle]
  simp only [Option.bind_some, h0, h1, hpos, if_false, if_true, h.len]
  by_cases heq : off + n = len
  · rw [if_pos (by omega), if_pos heq, Co.interpret_done]
  · rw [if_neg (by omega), if_neg heq]
    by_cases hlt : len < off + n
    · rw [if_pos (by omega), if_pos hlt, Co.interpret_done]
    · rw [if_neg (by omega), if_neg hlt, Int.natCast_add]

theorem Moves.complete (hm : Moves (retryOn errnos) len cl off plan ns)
    (h : Moved io errnos len move) : ∀ (w : SocketPeer) (mem : List UInt8), w.plan = plan →
    ∃ plan' armed', (OnMco.ioLoop io cl off mem).interpret SocketPeer.answer w
      = some ((carry move w mem ns).1.advance plan' armed', esqOk, (carry move w mem ns).2) := by
  induction hm with
  | @last cl off n armed plan hcl hn hoff =>
    intro w mem hw
    rw [interpret_ioLoop_ret h hcl hw hn (by omega), if_pos hoff]
    exact ⟨plan, armed, rfl⟩
  | @more cl off n armed plan ns hcl hn hoff _ ih =>
    intro w mem hw
    rw [interpret_ioLoop_ret h hcl hw hn (by omega), if_neg (by omega), if_neg (by omega)]
    obtain ⟨plan', armed', hrun⟩ := ih ((move w n).1.advance plan armed)
      (splice mem 0 (move w n).2) rfl
    rw [carry_advance h] at hrun
    exact ⟨plan', armed', hrun⟩
  | @wait cl off call plan ns hcl hcall _ ih =>
    intro w mem hw
    rw [interpret_ioLoop h hcl hw hcall, if_pos rfl]
    obtain ⟨plan', armed', hrun⟩ := ih (w.advance plan 0) mem rfl
    rw [carry_advance h] at hrun
    exact ⟨plan', armed', hrun⟩

/-- **`ESQ_OK` が返ったなら、ある列の通りに転送している。** -/
theorem moves_of_ok (h : Moved io errnos len move) : ∀ (plan : List (Libc × Int)) {cl off : Nat}
    {w w' : SocketPeer} {mem mem' : List UInt8}, w.plan = plan →
    (OnMco.ioLoop io cl off mem).interpret SocketPeer.answer w = some (w', esqOk, mem') →
    ∃ ns, Moves (retryOn errnos) len cl off plan ns := by
  intro plan
  induction plan with
  | nil =>
    intro cl off w w' mem mem' hw hrun
    rw [OnMco.ioLoop] at hrun
    by_cases hcl : mcoSocketIoMaxRetry ≤ cl
    · rw [if_pos hcl, Co.interpret_done, Option.some.injEq, Prod.mk.injEq, Prod.mk.injEq] at hrun
      exact absurd hrun.2.1 h.giveUp
    · rw [if_neg hcl, Co.interpret_ask, h.call, SocketPeer.transfer, hw] at hrun
      cases hrun
  | cons b plan ih =>
    obtain ⟨call, armed⟩ := b
    intro cl off w w' mem mem' hw hrun
    by_cases hcl : mcoSocketIoMaxRetry ≤ cl
    · rw [OnMco.ioLoop, if_pos hcl, Co.interpret_done, Option.some.injEq, Prod.mk.injEq,
        Prod.mk.injEq] at hrun
      exact absurd hrun.2.1 h.giveUp
    have hcl := not_le.mp hcl
    by_cases hcall : retryOn errnos call = 0
    · -- 待たされた
      rw [interpret_ioLoop h hcl hw hcall] at hrun
      by_cases ha : armed = 0
      · rw [if_pos ha] at hrun
        obtain ⟨ns, hns⟩ := ih (w := w.advance plan armed) rfl hrun
        subst ha
        exact ⟨ns, .wait hcl hcall hns⟩
      · rw [if_neg ha, Option.some.injEq, Prod.mk.injEq, Prod.mk.injEq] at hrun
        exact absurd hrun.2.1 ha
    · cases call with
      | err e =>
        -- 待っても進まない errno
        have hr : retryOn errnos (.err e) = -1 := by
          by_cases hmem : e ∈ errnos
          · exact absurd (if_pos hmem) hcall
          · exact if_neg hmem
        rw [OnMco.ioLoop, if_neg (not_le.mpr hcl), Co.interpret_ask, h.call, SocketPeer.transfer,
          hw] at hrun
        simp only [hr, Option.bind_some, Int.reduceNeg, Int.reduceEq, if_false, if_true,
          Co.interpret_done, Option.some.injEq, Prod.mk.injEq] at hrun
        exact absurd hrun.2.1 (by decide)
      | ret n =>
        have hn : 0 < n := by
          have : ¬ (n : Int) = 0 := hcall
          omega
        by_cases hle : n ≤ len
        · rw [interpret_ioLoop_ret h hcl hw hn hle] at hrun
          by_cases heq : off + n = len
          · exact ⟨[n], .last hcl hn heq⟩
          · rw [if_neg heq] at hrun
            by_cases hlt : len < off + n
            · rw [if_pos hlt, Option.some.injEq, Prod.mk.injEq, Prod.mk.injEq] at hrun
              exact absurd hrun.2.1 (by decide)
            · rw [if_neg hlt] at hrun
              obtain ⟨ns, hns⟩ := ih (w := (move w n).1.advance plan armed) rfl hrun
              exact ⟨n :: ns, .more hcl hn (by omega) hns⟩
        · rw [OnMco.ioLoop, if_neg (not_le.mpr hcl), Co.interpret_ask, h.call,
            SocketPeer.transfer, hw] at hrun
          simp only at hrun
          rw [if_neg (by omega)] at hrun
          cases hrun

theorem Moves.sum_eq {nb : Libc → Int} (hm : Moves nb len cl off plan ns) :
    off + ns.sum = len ∧ ∀ n ∈ ns, 0 < n := by
  induction hm with
  | last _ hn hoff =>
    refine ⟨by rw [List.sum_singleton]; exact hoff, fun m hm => ?_⟩
    rw [List.mem_singleton.mp hm]
    exact hn
  | more _ hn _ _ ih =>
    refine ⟨by rw [List.sum_cons]; omega, List.forall_mem_cons.mpr ⟨hn, ih.2⟩⟩
  | wait _ _ _ ih => exact ih

theorem Moves.len_pos {nb : Libc → Int} (hm : Moves nb len cl off plan ns) : 0 < len := by
  induction hm with
  | last => omega
  | more => omega
  | wait _ _ _ ih => exact ih

theorem Moves.whole_iff (hm : Moves (retryOn errnos) len cl off plan ns) (hoff : off = 0) :
    WholeFirst (retryOn errnos) len plan ↔ ns = [len] := by
  induction hm with
  | @last cl off n armed plan _ hn hlen =>
    have hn' : n = len := by omega
    subst hn'
    exact iff_of_true ⟨[], armed, plan, rfl, List.forall_mem_nil _⟩ rfl
  | @more cl off n armed plan ns _ hn hlt hrest _ =>
    refine iff_of_false ?_ ?_
    · rintro ⟨blocked, a, rest, hplan, hb⟩
      cases blocked with
      | nil =>
        cases hplan
        omega
      | cons b blocked =>
        cases hplan
        have : (n : Int) = 0 := hb _ List.mem_cons_self
        omega
    · intro heq
      have := (List.cons.inj heq).1
      omega
  | @wait cl off call plan ns _ hcall hrest ih =>
    rw [← ih hoff]
    constructor
    · rintro ⟨blocked, a, rest, hplan, hb⟩
      cases blocked with
      | nil =>
        cases hplan
        have hzero : (len : Int) = 0 := hcall
        have := hrest.len_pos
        omega
      | cons b blocked =>
        cases hplan
        exact ⟨blocked, a, rest, rfl, fun c hc => hb c (List.mem_cons_of_mem _ hc)⟩
    · rintro ⟨blocked, a, rest, hplan, hb⟩
      exact ⟨(call, 0) :: blocked, a, rest, by rw [hplan]; rfl,
        List.forall_mem_cons.mpr ⟨hcall, hb⟩⟩

theorem Moves.lt_of_ne {nb : Libc → Int} (hm : Moves nb len cl 0 plan ns) (hne : ns ≠ [len]) :
    ∀ n ∈ ns, n < len := by
  intro n hn
  obtain ⟨hsum, hpos⟩ := hm.sum_eq
  obtain ⟨as, bs, rfl⟩ := List.append_of_mem hn
  rw [List.sum_append, List.sum_cons] at hsum
  by_contra hge
  have has : as = [] := by
    cases as with
    | nil => rfl
    | cons a as =>
      have := hpos a List.mem_cons_self
      rw [List.sum_cons] at hsum
      omega
  have hbs : bs = [] := by
    cases bs with
    | nil => rfl
    | cons b bs =>
      have := hpos b (by simp)
      rw [List.sum_cons] at hsum
      omega
  subst has hbs
  refine hne ?_
  have hlen : n = len := by simpa using hsum
  rw [List.nil_append, hlen]

theorem carried_of_ok (h : Moved io errnos len move)
    (hrun : (OnMco.ioLoop io 0 0 mem).interpret SocketPeer.answer w = some (w', esqOk, mem')) :
    ∃ ns plan armed, Moves (retryOn errnos) len 0 0 w.plan ns ∧
      w' = (carry move w mem ns).1.advance plan armed ∧ mem' = (carry move w mem ns).2 := by
  obtain ⟨ns, hns⟩ := moves_of_ok h w.plan rfl hrun
  obtain ⟨plan, armed, hcarry⟩ := hns.complete h w mem rfl
  have hsame := hrun.symm.trans hcarry
  rw [Option.some.injEq, Prod.mk.injEq, Prod.mk.injEq] at hsame
  exact ⟨ns, plan, armed, hns, hsame.1, hsame.2.2⟩

/-! ## 書く loop -/

variable {data : List UInt8} {op : PonyCo Int} {fd : Int}

theorem esqErrorTimeout_ne : esqErrorTimeout ≠ esqOk := by decide

theorem esqErrorLibcall_ne : esqErrorLibcall ≠ esqOk := by decide

theorem moved_connectWrite (fd : Int) (data : List UInt8) :
    Moved (.connectWrite fd data) [errnoEagain, errnoEinprogress, errnoEalready] data.length
      (SocketPeer.push data) where
  call _ := rfl
  len := rfl
  giveUp := esqErrorTimeout_ne
  advance _ _ _ _ := rfl
  zero w := by simp [SocketPeer.push]

theorem moved_write (fd : Int) (data : List UInt8) :
    Moved (.write fd data) [errnoEagain, errnoEinprogress] data.length (SocketPeer.push data) where
  call _ := rfl
  len := rfl
  giveUp := esqErrorLibcall_ne
  advance _ _ _ _ := rfl
  zero w := by simp [SocketPeer.push]

theorem carry_push (data : List UInt8) : ∀ (ns : List Nat) (w : SocketPeer) (mem : List UInt8),
    (carry (SocketPeer.push data) w mem ns).1.sent = w.sent ++ ns.flatMap fun n => data.take n
  | [], w, mem => (List.append_nil _).symm
  | n :: ns, w, mem => by
    unfold carry
    rw [carry_push data ns]
    show (w.sent ++ data.take n) ++ _ = _
    rw [List.flatMap_cons, List.append_assoc]

theorem interpret_fst (x : PonyCo (Int × List UInt8)) :
    (x >>= fun res => (return res.1 : PonyCo Int)).interpret SocketPeer.answer w
      = (x.interpret SocketPeer.answer w).map fun p => (p.1, p.2.1) := by
  rw [Co.interpret_bind]
  cases x.interpret SocketPeer.answer w <;> rfl

theorem sent_of_ok (h : Moved io errnos len (SocketPeer.push data))
    (hrun : (OnMco.ioLoop io 0 0 [] >>= fun res => (return res.1 : PonyCo Int)).interpret
      SocketPeer.answer w = some (w', esqOk)) :
    ∃ ns, Moves (retryOn errnos) len 0 0 w.plan ns ∧
      w'.sent = w.sent ++ ns.flatMap fun n => data.take n := by
  rw [interpret_fst, Option.map_eq_some_iff] at hrun
  obtain ⟨⟨v, r, mem'⟩, hloop, heq⟩ := hrun
  rw [Prod.mk.injEq] at heq
  obtain ⟨rfl, rfl⟩ := heq
  obtain ⟨ns, plan, armed, hns, rfl, -⟩ := carried_of_ok h hloop
  exact ⟨ns, hns, carry_push data ns w []⟩

theorem ok_of_moves (h : Moved io errnos len (SocketPeer.push data))
    (hm : Moves (retryOn errnos) len 0 0 w.plan ns) :
    ∃ w', (OnMco.ioLoop io 0 0 [] >>= fun res => (return res.1 : PonyCo Int)).interpret
      SocketPeer.answer w = some (w', esqOk) ∧
      w'.sent = w.sent ++ ns.flatMap fun n => data.take n := by
  obtain ⟨plan, armed, hrun⟩ := hm.complete h w [] rfl
  refine ⟨(carry (SocketPeer.push data) w [] ns).1.advance plan armed, ?_, carry_push data ns w []⟩
  rw [interpret_fst]
  simp only [Nat.cast_zero] at hrun
  rw [hrun]
  rfl

def lastOne (len : Nat) : List UInt8 := List.replicate (len - 1) 0 ++ [1]

/-- **書く loop が正しいのは、初めの転送がすべてを転送するときに限る。** -/
theorem write_right_iff {io : List UInt8 → OnMco.SocketIo}
    (h : ∀ data, Moved (io data) errnos data.length (SocketPeer.push data))
    (hok : ∃ w', (OnMco.ioLoop (io data) 0 0 [] >>= fun res => (return res.1 : PonyCo Int)).interpret
      SocketPeer.answer w = some (w', esqOk)) :
    (∀ (data' : List UInt8) (v : SocketPeer), data'.length = data.length → v.plan = w.plan →
      ∀ v', (OnMco.ioLoop (io data') 0 0 [] >>= fun res => (return res.1 : PonyCo Int)).interpret
        SocketPeer.answer v = some (v', esqOk) → v'.sent = v.sent ++ data') ↔
      WholeFirst (retryOn errnos) data.length w.plan := by
  obtain ⟨w', hrun⟩ := hok
  obtain ⟨ns, hns, -⟩ := sent_of_ok (h data) hrun
  constructor
  · intro hright
    rw [hns.whole_iff rfl]
    by_contra hne
    have hlt := hns.lt_of_ne hne
    have hpos := hns.len_pos
    have hlen : (lastOne data.length).length = data.length := by
      rw [lastOne, List.length_append, List.length_replicate, List.length_singleton]
      omega
    obtain ⟨v', hv, hsent⟩ := ok_of_moves (w := w) (h (lastOne data.length))
      (by rw [hlen]; exact hns)
    have hdata := List.append_cancel_left (hsent.symm.trans (hright _ w hlen rfl v' hv))
    -- 終わりの 1 は渡らない
    have hone : (1 : UInt8) ∈ ns.flatMap fun n => (lastOne data.length).take n := by
      rw [hdata, lastOne]
      simp
    obtain ⟨n, hn, hmem⟩ := List.mem_flatMap.mp hone
    have hle : n ≤ data.length - 1 := by
      have := hlt n hn
      omega
    rw [lastOne, List.take_append_of_le_length (by rw [List.length_replicate]; exact hle)] at hmem
    have hzero := List.eq_of_mem_replicate (List.mem_of_mem_take hmem)
    exact absurd hzero (by decide)
  · intro hwhole data' v hlen hplan v' hv
    obtain ⟨ms, hms, hsent⟩ := sent_of_ok (h data') hv
    rw [hplan, hlen] at hms
    rw [(hms.whole_iff rfl).mp hwhole] at hsent
    rw [hsent, List.flatMap_singleton, ← hlen, List.take_length]

/-! ## 読む loop -/

theorem moved_read (fd : Int) (len : Nat) :
    Moved (.read fd len) [errnoEagain] len SocketPeer.pull where
  call _ := rfl
  len := rfl
  giveUp := esqErrorTimeout_ne
  advance _ _ _ _ := rfl
  zero _ := rfl

theorem length_upcoming (w : SocketPeer) (n : Nat) : (w.upcoming n).length = n := by
  rw [SocketPeer.upcoming, List.length_map, List.length_range]

theorem carry_pull_getElem? {k : Nat} : ∀ (ns : List Nat) (w : SocketPeer) (mem : List UInt8),
    (∀ n ∈ ns, n ≤ k) → (carry SocketPeer.pull w mem ns).2[k]? = mem[k]?
  | [], w, mem, _ => rfl
  | n :: ns, w, mem, hk => by
    have hn := hk n List.mem_cons_self
    have hbytes : (SocketPeer.pull w n).2.length = n := length_upcoming w n
    unfold carry
    rw [carry_pull_getElem? ns _ _ fun m hm => hk m (List.mem_cons_of_mem n hm), splice,
      List.take_zero, List.nil_append, hbytes, List.getElem?_append_right (by omega), hbytes,
      List.getElem?_drop]
    congr 1
    omega

/-- **読む loop が正しいのは、初めの転送がすべてを転送するときに限る。** -/
theorem read_right_iff {behind : List UInt8}
    (hok : ∃ w' mem, (OnMco.esqMcoSocketRead fd (data ++ behind) data.length).interpret
      SocketPeer.answer w = some (w', esqOk, mem)) :
    (∀ (data' behind' : List UInt8) (v : SocketPeer), data'.length = data.length →
      v.plan = w.plan → SocketKind.read.Right fd data' behind' v) ↔
      WholeFirst osReadNbReturn data.length w.plan := by
  obtain ⟨w', mem, hrun⟩ := hok
  obtain ⟨ns, -, -, hns, -, -⟩ := carried_of_ok (moved_read fd data.length) hrun
  constructor
  · intro hright
    refine (hns.whole_iff rfl).mpr ?_
    by_contra hne
    have hlt := hns.lt_of_ne hne
    have hpos := hns.len_pos
    -- 領域は 0 で、届くのは 1 だけである
    obtain ⟨plan, armed, hcarry⟩ := hns.complete (moved_read fd data.length)
      { w with stream := fun _ => 1 } (List.replicate data.length 0 ++ []) rfl
    have hres := hright (List.replicate data.length 0) [] { w with stream := fun _ => 1 }
      List.length_replicate rfl _ _ (by rw [List.length_replicate]; exact hcarry)
    have hlast := carry_pull_getElem? (k := data.length - 1) ns { w with stream := fun _ => 1 }
      (List.replicate data.length 0 ++ []) fun n hn => by have := hlt n hn; omega
    rw [hres.1, List.append_nil, List.append_nil, List.length_replicate, SocketPeer.upcoming,
      List.getElem?_map, List.getElem?_range (by omega), List.getElem?_replicate,
      if_pos (by omega)] at hlast
    have hone : (1 : UInt8) = 0 := Option.some.inj hlast
    exact absurd hone (by decide)
  · intro hwhole data' behind' v hlen hplan v' mem' hv
    obtain ⟨ms, plan, armed, hms, rfl, rfl⟩ := carried_of_ok (moved_read fd data'.length) hv
    rw [hplan, hlen] at hms
    rw [(hms.whole_iff rfl).mp hwhole, ← hlen]
    have hbytes : (SocketPeer.pull v data'.length).2 = v.upcoming data'.length := rfl
    refine ⟨?_, rfl⟩
    show splice _ _ _ = _
    rw [hbytes, splice, List.take_zero, List.nil_append, length_upcoming, Nat.zero_add,
      List.drop_left]

end

/-! ## 渡る byte が正しい条件 -/

/--
**`ESQ_OK` を返す結果の列について、渡る byte がどの内容でも正しいのは、初めに転送する呼び出しが
すべてを転送するとき、かつそのときに限る。**
-/
theorem socket_transfer_iff (kind : SocketKind) (fd : Int) (data behind : List UInt8)
    (w : SocketPeer) (hok : kind.Succeeds fd data behind w) :
    (∀ (data' behind' : List UInt8) (v : SocketPeer), data'.length = data.length →
      v.plan = w.plan → kind.Right fd data' behind' v) ↔
      WholeFirst kind.nb data.length w.plan := by
  cases kind with
  | connectWrite =>
    have h := write_right_iff (moved_connectWrite fd) hok
    exact ⟨fun hright => h.mp fun d v hd hv => hright d [] v hd hv,
      fun hwhole d _ v hd hv => h.mpr hwhole d v hd hv⟩
  | write =>
    have h := write_right_iff (moved_write fd) hok
    exact ⟨fun hright => h.mp fun d v hd hv => hright d [] v hd hv,
      fun hwhole d _ v hd hv => h.mpr hwhole d v hd hv⟩
  | read => exact read_right_iff hok

def halvingPeer : SocketPeer where
  plan := [(.err errnoEagain, 0), (.ret 1, 0), (.ret 1, 0)]
  armed := 0
  sent := []
  stream i := UInt8.ofNat (i + 1)
  pos := 0

def wholePeer : SocketPeer := halvingPeer.advance [(.err errnoEagain, 0), (.ret 2, 0)] 0

theorem socket_transfer_iff_sample : SocketKind.write.Right 3 [8, 9] [] wholePeer := by
  have hwhole : WholeFirst SocketKind.write.nb 2 wholePeer.plan :=
    ⟨[(.err errnoEagain, 0)], 0, [], rfl, List.forall_mem_singleton.mpr (by decide)⟩
  have hmoves : Moves SocketKind.write.nb 2 0 0 wholePeer.plan [2] :=
    .wait (by decide) (by decide) (.last (by decide) (by decide) rfl)
  obtain ⟨w', hrun, -⟩ := ok_of_moves (moved_write 3 [8, 9]) hmoves
  exact (socket_transfer_iff .write 3 [8, 9] [] wholePeer ⟨w', hrun⟩).mpr hwhole [8, 9] []
    wholePeer rfl rfl

/-- **二度に分けて転送すると、領域の先頭が二度渡り、後から届いた byte が先頭に書かれる。** -/
theorem socket_transfer_halved :
    ¬ SocketKind.write.Right 3 [8, 9] [] halvingPeer ∧
      ¬ SocketKind.read.Right 3 [0, 0] [] halvingPeer := by
  have hmoves : ∀ errnos : List Int, errnoEagain ∈ errnos →
      Moves (retryOn errnos) 2 0 0 halvingPeer.plan [1, 1] :=
    fun errnos he => .wait (by decide) (if_pos he) (.more (by decide) (by decide) (by decide)
      (.last (by decide) (by decide) rfl))
  constructor
  · intro hright
    obtain ⟨w', hrun, hsent⟩ := ok_of_moves (moved_write 3 [8, 9])
      (hmoves [errnoEagain, errnoEinprogress] (by decide))
    exact absurd (hsent.symm.trans (hright w' hrun)) (by decide)
  · intro hright
    obtain ⟨plan, armed, hrun⟩ := (hmoves [errnoEagain] (by decide)).complete (moved_read 3 2)
      halvingPeer [0, 0] rfl
    exact absurd (hright _ _ hrun).1 (by decide)

end Esq
