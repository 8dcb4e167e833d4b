import Esq.PostData.Refuse
import Esq.Sfs.PostFile

/-!
# file を受けとる

`modules/simple-file-service/post-parser.c` の `sfs_write_post_file` と `sfs_post_data_parser_cb`、
`sfs_chunk_recv_cb`。

callback は要素の種類だけを見て、どの部分の要素かは知らない。file 名で開き、値を書き、次の区切りで閉じる。
-/

namespace Esq

open Infra

inductive SfsPostState where
  | init
  | opened
  | recv
  | finished
  | error
  deriving DecidableEq

/-- `sfs_stream_ctx_t` のうち、受けとるのに使う欄。 -/
structure SfsStreamCtx where
  postFd : Int
  postState : SfsPostState
  postParserCtx : PostDataCtx
  postLen : Nat

def sfsNewCtx : SfsStreamCtx where
  postFd := -1
  postState := .init
  postParserCtx := .init
  postLen := 0

inductive SfsFileOp where
  | opened (path : List UInt8) (fd : Int)
  | wrote (fd : Int) (bytes : List UInt8)
  | closed (fd : Int)
  deriving DecidableEq

/-- stream の `app_stream_ctx` と、file にしたこと。 -/
structure SfsPostStream where
  appCtx : Option SfsStreamCtx
  ops : List SfsFileOp

structure SfsUploadIo extends SfsPostIo where
  newCtxOk : Bool
  /-- `write`。それまでにしたことによってもよい -/
  write : List SfsFileOp → Int → List UInt8 → Int
  write_le : ∀ ops fd buf, write ops fd buf ≤ buf.length

structure SfsUpload where
  io : SfsUploadIo
  serviceCtx : SfsServiceCtx
  matchedLength : Nat
  path : List UInt8

/-- `sfs_write_post_file` の loop。一回りに 1 byte は書くので、回るのは byte の数までである。 -/
def sfsWriteLoop (io : SfsUploadIo) (fd : Int) : Nat → List SfsFileOp → List UInt8 →
    Int × List SfsFileOp
  | 0, ops, _ => (0, ops)
  | n + 1, ops, buf =>
    if buf.length = 0 then (0, ops)
    else
      let r := io.write ops fd buf
      if r ≤ 0 then (-1, ops)
      else sfsWriteLoop io fd n (ops ++ [.wrote fd (buf.take r.toNat)]) (buf.drop r.toNat)

def sfsWritePostFile (io : SfsUploadIo) (ctx : SfsStreamCtx) (ops : List SfsFileOp)
    (buf : List UInt8) :
    Int × SfsStreamCtx × List SfsFileOp :=
  if ctx.postFd ≤ 0 then (-1, ctx, ops)
  else
    let (r, ops) := sfsWriteLoop io ctx.postFd buf.length ops buf
    if r ≠ 0 then (r, ctx, ops) else (0, { ctx with postLen := ctx.postLen + buf.length }, ops)

def sfsPostExx (ctx : SfsStreamCtx) (ops : List SfsFileOp) : Int × SfsPostStream :=
  (-1, {
    appCtx := some { ctx with
      postState := .error
      postFd := -1 }
    ops := ops ++ [.closed ctx.postFd] })

def sfsPostDataParserCb (u : SfsUpload) : PostDataParserAppCb SfsPostStream := fun s etype buf =>
  if u.serviceCtx.flags &&& sfsFlagsAllowUpload = 0 then (0, s)
  else
    match s.appCtx with
    | none => (-1, s)
    | some ctx =>
      if ctx.postState = .error then (-1, s)
      else if ctx.postState = .finished then (-1, s)
      else
        match etype with
        | .filename =>
          if ctx.postState = .init then
            let (r, file) := sfsOpenPostFile u.io.toSfsPostIo u.serviceCtx u.matchedLength u.path
              buf
            if r ≠ 0 then (-1, s)
            else
              -- 空の名前では開かず、`post_fd` は前のままである
              (0, {
                appCtx := some { ctx with
                  postFd := (file.map Prod.snd).getD ctx.postFd
                  postState := .opened }
                ops := s.ops ++ (file.map fun f => SfsFileOp.opened f.1 f.2).toList })
          else sfsPostExx ctx s.ops
        | .value =>
          if ctx.postState = .opened ∨ ctx.postState = .recv then
            let (r, ctx, ops) := sfsWritePostFile u.io ctx s.ops buf
            if r ≠ 0 then sfsPostExx ctx ops
            else (0, {
              appCtx := some { ctx with postState := .recv }
              ops := ops })
          else (0, s)
        | .boundary =>
          if ctx.postState = .recv then
            (0, {
              appCtx := some { ctx with
                postFd := -1
                postState := .finished }
              ops := s.ops ++ [.closed ctx.postFd] })
          else (0, s)
        | _ => if ctx.postState = .recv then sfsPostExx ctx s.ops else (0, s)

/-- `sfs_chunk_recv_cb`。`h2esq_stream_set_app_ctx` は、すでに置いてあるときだけ失敗する。 -/
def sfsChunkRecvCb (u : SfsUpload) (s : SfsPostStream) (beyond : Nat → UInt8) (buf : List UInt8) :
    Option (Int × SfsPostStream) :=
  let parse := fun (ctx : SfsStreamCtx) =>
    (postDataParser beyond buf (sfsPostDataParserCb u) ctx.postParserCtx
      { s with appCtx := some ctx }).map fun r =>
        let appCtx := r.app.appCtx.map fun c => { c with postParserCtx := r.ctx }
        (r.ret, { r.app with appCtx := appCtx })
  match s.appCtx with
  | some ctx => parse ctx
  | none => if u.io.newCtxOk then parse sfsNewCtx else some (-1, s)

/-! ## 受けとれるとき -/

/-- 受けとることが許されていて、file 名 `filename` の file が `fd` で開き、書けば進む。 -/
structure UploadReady (u : SfsUpload) (filename path : List UInt8) (fd : Int) : Prop where
  allowed : u.serviceCtx.flags &&& sfsFlagsAllowUpload ≠ 0
  newCtxOk : u.io.newCtxOk = true
  opens : sfsOpenPostFile u.io.toSfsPostIo u.serviceCtx u.matchedLength u.path filename
    = (0, some (path, fd))
  /-- 0 以下の番号には書かない -/
  positive : 0 < fd
  writes : ∀ ops buf, buf ≠ [] → 0 < u.io.write ops fd buf

section

variable {σ : Type*} {cb : PostDataParserAppCb σ} {a a' : σ} {e : PostEt} {b : List UInt8}

theorem feed_accepted (h : cb a e b = (0, a')) (es : List PostElement) :
    feed (latched cb) (false, a) (⟨e, b⟩ :: es) = feed (latched cb) (false, a') es := by
  simp [feed, latched, h]

theorem feed_refused (h : (cb a e b).1 ≠ 0) (he : e ≠ .finish ∧ e ≠ .error)
    (es : List PostElement) :
    feed (latched cb) (false, a) (⟨e, b⟩ :: es) = (true, (cb a e b).2) := by
  have hstep : feed (latched cb) (false, a) (⟨e, b⟩ :: es)
    = feed (latched cb) (true, (cb a e b).2) es := by
    simp [feed, latched, h, he]
  rw [hstep, feed_latched]

end

section

variable {u : SfsUpload} {s : SfsPostStream} {ctx : SfsStreamCtx} {e : PostEt}
  {filename path value line : List UInt8} {fd : Int}

/-! ## 書く -/

theorem sfsWriteLoop_all {io : SfsUploadIo}
    (hwrites : ∀ ops buf, buf ≠ [] → 0 < io.write ops fd buf) :
    ∀ (n : Nat) (ops : List SfsFileOp) (buf : List UInt8), buf.length ≤ n →
      ∃ ws : List (List UInt8), sfsWriteLoop io fd n ops buf = (0, ops ++ ws.map (.wrote fd)) ∧
        ws.flatten = buf := by
  intro n
  induction n with
  | zero =>
    intro ops buf hn
    obtain rfl : buf = [] := List.length_eq_zero_iff.mp (by omega)
    exact ⟨[], by rw [sfsWriteLoop, List.map_nil, List.append_nil], rfl⟩
  | succ n ih =>
    intro ops buf hn
    by_cases hbuf : buf = []
    · subst hbuf
      exact ⟨[], by rw [sfsWriteLoop, if_pos List.length_nil, List.map_nil, List.append_nil], rfl⟩
    · have hpos := hwrites ops buf hbuf
      have hle := io.write_le ops fd buf
      obtain ⟨ws, hrun, hws⟩ := ih (ops ++ [.wrote fd (buf.take (io.write ops fd buf).toNat)])
        (buf.drop (io.write ops fd buf).toNat) (by rw [List.length_drop]; omega)
      refine ⟨buf.take (io.write ops fd buf).toNat :: ws, ?_, ?_⟩
      · rw [sfsWriteLoop, if_neg (mt List.length_eq_zero_iff.mp hbuf)]
        dsimp only
        rw [if_neg (by omega), hrun, List.map_cons, List.append_assoc]
        rfl
      · rw [List.flatten_cons, hws, List.take_append_drop]

/-! ## 要素ごとの一歩 -/

theorem sfsPostDataParserCb_init (hctx : s.appCtx = some ctx) (hstate : ctx.postState = .init)
    (he : e ≠ .filename) (buf : List UInt8) : sfsPostDataParserCb u s e buf = (0, s) := by
  unfold sfsPostDataParserCb
  split
  · rfl
  · rw [hctx]
    cases e with
    | filename => exact absurd rfl he
    | _ => simp [hstate]

theorem sfsPostDataParserCb_opened (hctx : s.appCtx = some ctx) (hstate : ctx.postState = .opened)
    (he : e ≠ .filename ∧ e ≠ .value) (buf : List UInt8) : sfsPostDataParserCb u s e buf
      = (0, s) := by
  unfold sfsPostDataParserCb
  split
  · rfl
  · rw [hctx]
    cases e with
    | filename => exact absurd rfl he.1
    | value => exact absurd rfl he.2
    | _ => simp [hstate]

theorem sfsPostDataParserCb_finished (hallow : u.serviceCtx.flags &&& sfsFlagsAllowUpload ≠ 0)
    (hctx : s.appCtx = some ctx) (hstate : ctx.postState = .finished) (e : PostEt)
      (buf : List UInt8) :
    sfsPostDataParserCb u s e buf = (-1, s) := by
  unfold sfsPostDataParserCb
  rw [if_neg hallow, hctx]
  simp [hstate]

def SfsStreamCtx.onFile (ctx : SfsStreamCtx) (fd : Int) (state : SfsPostState)
    (len : Nat) : SfsStreamCtx :=
  { ctx with
    postFd := fd
    postState := state
    postLen := ctx.postLen + len }

theorem sfsPostDataParserCb_filename (hready : UploadReady u filename path fd)
    (hctx : s.appCtx = some ctx) (hstate : ctx.postState = .init) :
    sfsPostDataParserCb u s .filename filename
      = (0, ⟨some (ctx.onFile fd .opened 0), s.ops ++ [.opened path fd]⟩) := by
  unfold sfsPostDataParserCb
  rw [if_neg hready.allowed, hctx]
  simp [hstate, hready.opens, SfsStreamCtx.onFile]

theorem sfsPostDataParserCb_value (hready : UploadReady u filename path fd)
    (hctx : s.appCtx = some (ctx.onFile fd .opened 0)) (value : List UInt8) :
    ∃ ws : List (List UInt8), ws.flatten = value ∧ sfsPostDataParserCb u s .value value
      = (0, ⟨some (ctx.onFile fd .recv value.length), s.ops ++ ws.map (.wrote fd)⟩) := by
  obtain ⟨ws, hrun, hws⟩ := sfsWriteLoop_all hready.writes value.length s.ops value le_rfl
  have hwrite : sfsWritePostFile u.io (ctx.onFile fd .opened 0) s.ops value
      = (0, ctx.onFile fd .opened value.length, s.ops ++ ws.map (.wrote fd)) := by
    have hpos : ¬fd ≤ 0 := not_le.mpr hready.positive
    unfold sfsWritePostFile SfsStreamCtx.onFile
    dsimp only
    rw [if_neg hpos, hrun]
    rfl
  refine ⟨ws, hws, ?_⟩
  unfold sfsPostDataParserCb
  rw [if_neg hready.allowed, hctx]
  dsimp only
  rw [hwrite]
  rfl

theorem sfsPostDataParserCb_close (hready : UploadReady u filename path fd) {len : Nat}
    (hctx : s.appCtx = some (ctx.onFile fd .recv len)) (buf : List UInt8) :
    sfsPostDataParserCb u s .boundary buf
      = (0, ⟨some (ctx.onFile (-1) .finished len), s.ops ++ [.closed fd]⟩) := by
  unfold sfsPostDataParserCb
  rw [if_neg hready.allowed, hctx]
  rfl

/-! ## 部分ごとの一歩 -/

theorem feed_plain (hctx : s.appCtx = some ctx) (hstate : ctx.postState = .init) (p : FormPart line)
    (hfile : p.file = none) (es : List PostElement) :
    feed (latched (sfsPostDataParserCb u)) (false, s) (p.elements ++ es)
      = feed (latched (sfsPostDataParserCb u)) (false, s) es := by
  have hskip : ∀ e, e ≠ .filename → ∀ buf es,
    feed (latched (sfsPostDataParserCb u)) (false, s) (⟨e, buf⟩ :: es)
      = feed (latched (sfsPostDataParserCb u)) (false, s) es :=
    fun e he buf es => feed_accepted (sfsPostDataParserCb_init hctx hstate he buf) es
  unfold FormPart.elements
  rw [hfile]
  simp only [Option.elim_none, List.append_nil, List.cons_append, List.nil_append]
  rw [hskip _ (by decide), hskip _ (by decide), hskip _ (by decide), hskip _ (by decide),
    hskip _ (by decide)]

theorem feed_plains (hctx : s.appCtx = some ctx) (hstate : ctx.postState = .init)
    (ps : List (FormPart line)) (hfile : ∀ p ∈ ps, p.file = none) (es : List PostElement) :
    feed (latched (sfsPostDataParserCb u)) (false, s) (ps.flatMap FormPart.elements ++ es)
      = feed (latched (sfsPostDataParserCb u)) (false, s) es := by
  induction ps with
  | nil => rfl
  | cons p ps ih =>
    rw [List.flatMap_cons, List.append_assoc, feed_plain hctx hstate p (hfile p List.mem_cons_self),
      ih fun q hq => hfile q (List.mem_cons_of_mem p hq)]

/-- **file を持つ部分は、開いて、値をすべて書いて、閉じる。** -/
theorem feed_file (hready : UploadReady u filename path fd) (hctx : s.appCtx = some ctx)
    (hstate : ctx.postState = .init) (p : FormPart line) {file : FormFile}
      (hfile : p.file = some file)
    (hname : file.filename = filename) (es : List PostElement) :
    ∃ ws : List (List UInt8), ws.flatten = p.value ∧
      feed (latched (sfsPostDataParserCb u)) (false, s) (p.elements ++ es)
        = feed (latched (sfsPostDataParserCb u)) (false,
            ⟨some (ctx.onFile (-1) .finished p.value.length),
              s.ops ++ .opened path fd :: (ws.map (.wrote fd) ++ [.closed fd])⟩) es := by
  subst hname
  have hopen := sfsPostDataParserCb_filename hready hctx hstate
  have hopened : (SfsPostStream.mk (some (ctx.onFile fd .opened 0))
    (s.ops ++ [.opened path fd])).appCtx
      = some (ctx.onFile fd .opened 0) := rfl
  obtain ⟨ws, hws, hvalue⟩ := sfsPostDataParserCb_value hready hopened p.value
  have hrecv : (SfsPostStream.mk (some (ctx.onFile fd .recv p.value.length))
      (s.ops ++ [.opened path fd] ++ ws.map (.wrote fd))).appCtx
      = some (ctx.onFile fd .recv p.value.length) := rfl
  have hclose := sfsPostDataParserCb_close hready hrecv (crlf ++ line)
  refine ⟨ws, hws, ?_⟩
  unfold FormPart.elements
  rw [hfile]
  simp only [Option.elim_some, List.cons_append, List.nil_append]
  rw [feed_accepted (sfsPostDataParserCb_init hctx hstate (by decide) _),
    feed_accepted (sfsPostDataParserCb_init hctx hstate (by decide) _), feed_accepted hopen,
    feed_accepted (sfsPostDataParserCb_opened hopened rfl (by decide) _),
    feed_accepted (sfsPostDataParserCb_opened hopened rfl (by decide) _), feed_accepted hvalue,
    feed_accepted hclose]
  simp only [List.append_assoc, List.cons_append, List.nil_append]

theorem feed_after (hallow : u.serviceCtx.flags &&& sfsFlagsAllowUpload ≠ 0)
    (hctx : s.appCtx = some ctx)
    (hstate : ctx.postState = .finished) (ps : List (FormPart line)) :
    feed (latched (sfsPostDataParserCb u)) (false, s) (ps.flatMap FormPart.elements)
      = (decide (ps ≠ []), s) := by
  cases ps with
  | nil => rfl
  | cons p ps =>
    have hcb := sfsPostDataParserCb_finished hallow hctx hstate .contentFormData contentDfd
    have hminus : (-1 : Int) ≠ 0 := by decide
    have hrefuse : (sfsPostDataParserCb u s .contentFormData contentDfd).1 ≠ 0 := by
      rw [hcb]
      exact hminus
    rw [List.flatMap_cons, FormPart.elements, List.cons_append, List.cons_append, List.cons_append,
      List.cons_append, feed_refused hrefuse (by decide), hcb]
    simp

theorem feed_emptyFile (hallow : u.serviceCtx.flags &&& sfsFlagsAllowUpload ≠ 0)
    (hctx : s.appCtx = some ctx) (hstate : ctx.postState = .init) (hfd : ctx.postFd ≤ 0)
    (p : FormPart line) {file : FormFile} (hfile : p.file = some file) (hname : file.filename = [])
    (es : List PostElement) :
    feed (latched (sfsPostDataParserCb u)) (false, s) (p.elements ++ es)
      = (true, (sfsPostExx { ctx with postState := .opened } s.ops).2) := by
  have hopen : sfsPostDataParserCb u s .filename file.filename
      = (0, ⟨some { ctx with postState := .opened }, s.ops⟩) := by
    unfold sfsPostDataParserCb
    rw [if_neg hallow, hctx, hname]
    simp [hstate, sfsOpenPostFile]
  have hopened : (SfsPostStream.mk (some { ctx with postState := .opened }) s.ops).appCtx
      = some { ctx with postState := .opened } := rfl
  have hvalue : sfsPostDataParserCb u ⟨some { ctx with postState := .opened }, s.ops⟩ .value p.value
      = sfsPostExx { ctx with postState := .opened } s.ops := by
    have hwrite : sfsWritePostFile u.io { ctx with postState := .opened } s.ops p.value
        = (-1, { ctx with postState := .opened }, s.ops) := if_pos hfd
    unfold sfsPostDataParserCb
    rw [if_neg hallow]
    simp [hwrite]
  have hminus : (sfsPostExx { ctx with postState := .opened } s.ops).1 ≠ 0 := by
    simp [sfsPostExx]
  unfold FormPart.elements
  rw [hfile]
  simp only [Option.elim_some, List.cons_append, List.nil_append]
  rw [feed_accepted (sfsPostDataParserCb_init hctx hstate (by decide) _),
    feed_accepted (sfsPostDataParserCb_init hctx hstate (by decide) _), feed_accepted hopen,
    feed_accepted (sfsPostDataParserCb_opened hopened rfl (by decide) _),
    feed_accepted (sfsPostDataParserCb_opened hopened rfl (by decide) _),
    feed_refused (by rwa [hvalue]) (by decide), hvalue]

theorem sfsChunkRecvCb_new {beyond : Nat → UInt8} {buf : List UInt8}
    (hmalloc : u.io.newCtxOk = true)
    (hnew : s.appCtx = none) {r : PdpResult SfsPostStream}
    (h : postDataParser beyond buf (sfsPostDataParserCb u) .init
      { s with appCtx := some sfsNewCtx } = some r) :
    ∃ s', sfsChunkRecvCb u s beyond buf = some (r.ret, s') ∧ s'.ops = r.app.ops := by
  refine ⟨⟨r.app.appCtx.map fun c => { c with postParserCtx := r.ctx }, r.app.ops⟩, ?_, rfl⟩
  unfold sfsChunkRecvCb
  dsimp only
  rw [hnew]
  dsimp only
  rw [if_pos hmalloc]
  exact congrArg (Option.map _) h

/--
**file を持たない部分の後に file があれば、その file を一度だけ開き、値をすべて順に書いて、一度だけ閉じる。** その後に
何も続かなければ 0 を、部分が続けば -1 を返す。
-/
theorem upload_contents (hready : UploadReady u filename path fd) (hlower : 4 ≤ line.length)
    (hupper : line.length ≤ 254) (hcr : 13 ∉ line) {before after : List (FormPart line)}
    {f : FormPart line} {file : FormFile} (hfile : f.file = some file)
      (hname : file.filename = filename)
    (hbefore : ∀ p ∈ before, p.file = none) (hnew : s.appCtx = none) (beyond : Nat → UInt8) :
    ∃ r s', sfsChunkRecvCb u s beyond (renderForm line (before ++ f :: after)) = some (r, s') ∧
      r = (if after = [] then 0 else -1) ∧
      ∃ ws : List (List UInt8), ws.flatten = f.value ∧
        s'.ops = s.ops ++ .opened path fd :: (ws.map (.wrote fd) ++ [.closed fd]) := by
  have hparts : before ++ f :: after ≠ [] := List.append_ne_nil_of_right_ne_nil _
    (List.cons_ne_nil _ _)
  obtain ⟨r, hr, hans⟩ := post_feed (sfsPostDataParserCb u) beyond hlower hupper hcr
    (before ++ f :: after) hparts { s with appCtx := some sfsNewCtx }
  -- 区切りの行、前の部分、file、後の部分の順に渡る
  have hinit : (SfsPostStream.mk (some sfsNewCtx) s.ops).appCtx = some sfsNewCtx := rfl
  obtain ⟨ws, hws, hfeed⟩ := feed_file hready hinit rfl f hfile hname
    (after.flatMap FormPart.elements)
  have hrun : feed (latched (sfsPostDataParserCb u)) (false, { s with appCtx := some sfsNewCtx })
      (⟨.boundary, line⟩ :: (before ++ f :: after).flatMap FormPart.elements)
      = (decide (after ≠ []), ⟨some (sfsNewCtx.onFile (-1) .finished f.value.length),
          s.ops ++ .opened path fd :: (ws.map (.wrote fd) ++ [.closed fd])⟩) := by
    rw [List.flatMap_append, List.flatMap_cons,
      feed_accepted (sfsPostDataParserCb_init hinit rfl (by decide) line),
        feed_plains hinit rfl before hbefore,
      hfeed]
    exact feed_after hready.allowed rfl rfl after
  dsimp only at hans
  rw [hrun] at hans
  obtain ⟨s', hs', hops⟩ := sfsChunkRecvCb_new hready.newCtxOk hnew hr
  refine ⟨_, s', hs', ?_, ws, hws, ?_⟩
  · by_cases hafter : after = []
    · rw [if_neg (by simp [hafter])] at hans
      rw [if_pos hafter]
      exact hans.1
    · rw [if_pos (by simp [hafter])] at hans
      rw [if_neg hafter]
      exact hans.1
  · by_cases hafter : after = []
    · rw [if_neg (by simp [hafter])] at hans
      rw [hops, hans.2, sfsPostDataParserCb_finished hready.allowed rfl rfl]
    · rw [if_pos (by simp [hafter])] at hans
      rw [hops, hans.2]

theorem upload_after_empty_file (hallow : u.serviceCtx.flags &&& sfsFlagsAllowUpload ≠ 0)
    (hmalloc : u.io.newCtxOk = true) (hlower : 4 ≤ line.length) (hupper : line.length ≤ 254)
    (hcr : 13 ∉ line) {before after : List (FormPart line)} {f : FormPart line} {file : FormFile}
    (hfile : f.file = some file) (hname : file.filename = [])
      (hbefore : ∀ p ∈ before, p.file = none)
    (hnew : s.appCtx = none) (beyond : Nat → UInt8) :
    ∃ s', sfsChunkRecvCb u s beyond (renderForm line (before ++ f :: after)) = some (-1, s') ∧
      s'.ops = s.ops ++ [.closed (-1)] := by
  have hparts : before ++ f :: after ≠ [] := List.append_ne_nil_of_right_ne_nil _
    (List.cons_ne_nil _ _)
  obtain ⟨r, hr, hans⟩ := post_feed (sfsPostDataParserCb u) beyond hlower hupper hcr
    (before ++ f :: after) hparts { s with appCtx := some sfsNewCtx }
  have hinit : (SfsPostStream.mk (some sfsNewCtx) s.ops).appCtx = some sfsNewCtx := rfl
  dsimp only at hans
  rw [List.flatMap_append, List.flatMap_cons,
    feed_accepted (sfsPostDataParserCb_init hinit rfl (by decide) line),
      feed_plains hinit rfl before hbefore,
    feed_emptyFile hallow hinit rfl (by decide) f hfile hname, if_pos rfl] at hans
  obtain ⟨s', hs', hops⟩ := sfsChunkRecvCb_new hmalloc hnew hr
  refine ⟨s', by rw [hs', hans.1], ?_⟩
  rw [hops, hans.2]
  rfl

end

/-! ## 例 -/

def SfsServiceCtx.upload : SfsServiceCtx where
  flags := sfsFlagsAllowUpload
  localPathHead := SfsServiceCtx.download.localPathHead
  ne_nil := SfsServiceCtx.download.ne_nil
  short := SfsServiceCtx.download.short

def SfsUpload.sample : SfsUpload where
  io := {
    SfsPostIo.sample with
    newCtxOk := true
    write := fun _ _ buf => min 1 buf.length
    write_le := fun _ _ _ => min_le_right _ _ }
  serviceCtx := .upload
  matchedLength := 1
  path := [47, 120]

def SfsPostStream.sample : SfsPostStream where
  appCtx := none
  ops := []

def FormPart.plainSample : FormPart [45, 45, 97, 98] where
  name := [112]
  quote_free := by decide
  file := none
  value := [118]
  delimiter_free := by decide

theorem uploadReady_sample : UploadReady .sample [102] [47, 115, 114, 118, 47, 120, 47, 102] 3 where
  allowed := by decide
  newCtxOk := rfl
  opens := by decide +kernel
  positive := by decide
  writes := fun ops buf hbuf => by
    have hpos := List.length_pos_iff.mpr hbuf
    simp only [SfsUpload.sample]
    omega

/-- 欄の後に file があるとき。 -/
theorem upload_contents_sample :
    UploadReady .sample [102] [47, 115, 114, 118, 47, 120, 47, 102] 3 ∧
    ∃ r s', sfsChunkRecvCb .sample .sample (fun _ => 0)
        (renderForm [45, 45, 97, 98] ([.plainSample] ++ FormPart.sample :: [])) = some (r, s') ∧
      r = (if ([] : List (FormPart [45, 45, 97, 98])) = [] then 0 else -1) ∧
      ∃ ws : List (List UInt8), ws.flatten = FormPart.sample.value ∧
        s'.ops = SfsPostStream.sample.ops ++
          .opened [47, 115, 114, 118, 47, 120, 47, 102] 3 :: (ws.map (.wrote 3) ++ [.closed 3]) :=
  ⟨uploadReady_sample, upload_contents uploadReady_sample (by decide) (by decide)
    (by decide) rfl rfl
    (List.forall_mem_singleton.mpr rfl) rfl (fun _ => 0)⟩

def FormPart.unchosen : FormPart [45, 45, 97, 98] :=
  { FormPart.plainSample with
    file := FormPart.sample.file.map fun f =>
      { f with filename := [], quote_free := List.not_mem_nil } }

theorem upload_after_empty_file_sample :
    ∃ s', sfsChunkRecvCb .sample .sample (fun _ => 0)
        (renderForm [45, 45, 97, 98] ([] ++ FormPart.unchosen :: [.sample])) = some (-1, s') ∧
      s'.ops = SfsPostStream.sample.ops ++ [.closed (-1)] :=
  upload_after_empty_file (by decide) rfl (by decide) (by decide) (by decide) rfl rfl
    (List.forall_mem_nil _) rfl _

/-- file の後に欄があれば、受けとり終えていても -1 を返す。 -/
theorem upload_refuses_later_field :
    ¬∀ (u : SfsUpload) (filename path : List UInt8) (fd : Int) (s : SfsPostStream)
      (line : List UInt8)
      (before after : List (FormPart line)) (f : FormPart line) (file : FormFile)
        (beyond : Nat → UInt8),
      UploadReady u filename path fd → 4 ≤ line.length → line.length ≤ 254 → 13 ∉ line →
      f.file = some file → file.filename = filename → filename ≠ [] →
      (∀ p ∈ before ++ after, ∀ g, p.file = some g → g.filename = []) → s.appCtx = none →
      ∃ s', sfsChunkRecvCb u s beyond (renderForm line (before ++ f :: after)) = some (0, s') ∧
        ∃ ws : List (List UInt8), ws.flatten = f.value ∧
          s'.ops = s.ops ++ .opened path fd :: (ws.map (.wrote fd) ++ [.closed fd]) := by
  intro hall
  have hplain : ∀ p ∈ [] ++ [FormPart.plainSample], ∀ g, p.file = some g → g.filename = [] :=
    List.forall_mem_singleton.mpr fun g hg => by cases hg
  obtain ⟨s', hrun, -⟩ := hall .sample [102] _ 3 .sample [45, 45, 97, 98] [] [.plainSample]
    .sample _ (fun _ => 0) uploadReady_sample (by decide) (by decide) (by decide) rfl rfl (by decide)
    hplain rfl
  have hret : (sfsChunkRecvCb .sample .sample (fun _ => 0)
      (renderForm [45, 45, 97, 98] ([] ++ FormPart.sample :: [.plainSample]))).map Prod.fst
        = some (-1) := by
    decide +kernel
  rw [hrun] at hret
  have hzero : (0 : Int) = -1 := Option.some.inj hret
  exact absurd hzero (by decide)

end Esq
