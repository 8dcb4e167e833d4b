import Esq.PostData.Run

/-!
# form の往復

一つの buffer に書いた form を読めば、書いた名前と型と値が、書いた順に渡る。
-/

namespace Esq

open Infra

/-! ## 区切りの行 -/

section

variable {σ : Type*} {beyond : Nat → UInt8} {rest line : List UInt8} {cb : PostDataParserAppCb σ}
  {t : PdpNext × PdpState σ} {e : PostEt}

theorem BoundaryLine.of_notMem (hlower : 4 ≤ line.length) (hupper : line.length ≤ 254) (hcr : 13 ∉ line) :
    BoundaryLine line where
  lower := hlower
  upper := hupper
  crlf := by
    refine findInfix_append_self (fun h => hcr (h.subset List.mem_cons_self)) (by decide)

theorem BoundaryLine.find (h : BoundaryLine line) (hrest : Esq.crlf <+: rest) :
    findInfix Esq.crlf (line ++ rest) = some line.length := by
  obtain ⟨t, rfl⟩ := hrest
  rw [← List.append_assoc]
  exact findInfix_append h.crlf t

theorem pdpLocateBoundary_eq (hline : BoundaryLine line) (hrest : crlf <+: rest) :
    pdpLocateBoundary (line ++ rest) = (line.length - 1 : Nat) := by
  obtain ⟨tail, rfl⟩ := hrest
  have hlower := hline.lower
  have hupper := hline.upper
  have hcrlf : crlf.length = 2 := rfl
  have hlen : (line ++ (crlf ++ tail)).length = line.length + 2 + tail.length := by
    rw [List.length_append, List.length_append, hcrlf, Nat.add_assoc]
  have hmax : pdpBoundaryMax = 256 := rfl
  -- 改行は、見る範囲に収まる
  have hfind : ∀ n, line.length + 2 ≤ n →
      memmem ((line ++ (crlf ++ tail)).take n) crlf = some line.length := by
    intro n hn
    rw [← List.append_assoc, List.take_append, List.take_of_length_le (by
      rw [List.length_append, hcrlf]
      exact hn)]
    exact findInfix_append hline.crlf _
  unfold pdpLocateBoundary
  dsimp only
  rw [hfind _ (by split <;> omega)]
  dsimp only
  rw [if_neg (by omega)]
  omega

theorem postDataParser_start (beyond : Nat → UInt8) (hcb : ∀ a e b, (cb a e b).1 = 0)
    (hline : BoundaryLine line) (hrest : crlf <+: rest) (app : σ) :
    ∃ s : PdpState σ, s.lastItemType = .boundary ∧ s.i = line.length ∧
      elements s.events = [⟨.boundary, line⟩] ∧
      postDataParser beyond (line ++ rest) cb .init app
        = (pdpLoop beyond (line ++ rest) cb (delimiter line) (line ++ rest).length s).map
            (pdpReturn cb ⟨.void, delimiter line⟩) := by
  have hlower := hline.lower
  have hupper := hline.upper
  have hmax : pdpBoundaryMax = 256 := rfl
  have hrecord : readBytes beyond (line ++ rest) 0 (line.length - 1) = line.dropLast := by
    rw [readBytes_inside beyond (by rw [List.length_append]; omega), List.drop_zero,
      List.take_append_of_le_length (Nat.sub_le _ _), List.dropLast_eq_take]
  have hvoid : PostDataCtx.init.lastItemType = .void := rfl
  unfold postDataParser
  rw [if_pos hvoid, pdpLocateBoundary_eq hline hrest]
  dsimp only
  rw [if_neg (by omega), Int.toNat_natCast, hrecord]
  obtain ⟨s, hs, htook⟩ := consumeItem_took hcb beyond
    (PdpState.mk PostEt.void 0 app [.read 0 (min pdpBoundaryMax (line ++ rest).length)]) .boundary
    (show ((line.length - 1 : Nat) : Int) + 1 = line.length by omega)
    (show (line ++ rest).drop 0 = line ++ rest from rfl) (Nat.zero_le _)
  refine ⟨s, htook.last, ?_, htook.elements, ?_⟩
  · rw [htook.i, Nat.zero_add]
  · rw [hs]
    rfl

theorem Ended.result (h : Ended t e) (cb : PostDataParserAppCb σ) (ctx : PostDataCtx) :
    (pdpReturn cb ctx t).ret = 0 ∧ (pdpReturn cb ctx t).ctx = ⟨e, ctx.boundary⟩ ∧
      (pdpReturn cb ctx t).events = t.2.events := by
  obtain ⟨r, s⟩ := t
  rcases h with ⟨rfl, rfl⟩ | ⟨rfl, rfl⟩
  · exact ⟨rfl, rfl, rfl⟩
  · exact ⟨rfl, rfl, rfl⟩

end

/-! ## form -/

structure FormFile where
  filename : List UInt8
  quote_free : 34 ∉ filename
  contentType : List UInt8
  ne_nil : contentType ≠ []
  crlf_free : ¬crlf <:+: contentType

/-- form の一つの部分。値は、`line` を区切りの行として書ける。 -/
structure FormPart (line : List UInt8) where
  name : List UInt8
  quote_free : 34 ∉ name
  file : Option FormFile
  value : List UInt8
  delimiter_free : ¬delimiter line <:+: value

section

variable {line : List UInt8}

def FormFile.render (f : FormFile) : List UInt8 :=
  fnameS ++ f.filename ++ [34] ++ contentTypePrefix ++ f.contentType

def FormPart.render (p : FormPart line) : List UInt8 :=
  contentDfd ++ nameS ++ p.name ++ [34] ++ (p.file.elim [] FormFile.render) ++ emptyLine ++ p.value ++
    crlf ++ line

def renderForm (line : List UInt8) (parts : List (FormPart line)) : List UInt8 :=
  line ++ parts.flatMap FormPart.render ++ finishMark

def FormPart.elements (p : FormPart line) : List PostElement :=
  [⟨.contentFormData, contentDfd⟩, ⟨.name, p.name⟩] ++
    (p.file.elim [] fun f => [⟨.filename, f.filename⟩, ⟨.contentType, f.contentType⟩]) ++
    [⟨.emptyLine, emptyLine⟩, ⟨.value, p.value⟩, ⟨.boundary, crlf ++ line⟩]

def formElements (line : List UInt8) (parts : List (FormPart line)) : List PostElement :=
  [⟨.boundary, line⟩] ++ parts.flatMap FormPart.elements ++ [⟨.finish, finishMark⟩]

def FormFile.tokens (f : FormFile) : List PostToken := [.filename f.filename, .contentType f.contentType]

def FormPart.tokens (p : FormPart line) : List PostToken :=
  [.formData, .name p.name] ++ p.file.elim [] FormFile.tokens ++
    [.emptyLine, .value p.value (line.getLast?.getD 0)]

def formTokens (parts : List (FormPart line)) : List PostToken :=
  parts.flatMap FormPart.tokens ++ [.finish]

theorem renderTokens_append (ts us : List PostToken) :
    renderTokens line (ts ++ us) = renderTokens line ts ++ renderTokens line us :=
  List.flatMap_append

theorem tokenElements_append (ts us : List PostToken) :
    tokenElements line (ts ++ us) = tokenElements line ts ++ tokenElements line us :=
  List.flatMap_append

theorem FormPart.render_eq (p : FormPart line) (hline : line ≠ []) :
    p.render = renderTokens line p.tokens := by
  have hlast := delimiter_append hline
  unfold render tokens
  cases p.file with
  | none => simp [PostToken.render, hlast]
  | some f => simp [PostToken.render, FormFile.tokens, FormFile.render, hlast]

theorem FormPart.elements_eq (p : FormPart line) (hline : line ≠ []) :
    p.elements = tokenElements line p.tokens := by
  have hlast := delimiter_append hline
  unfold elements tokens
  cases p.file with
  | none => simp [PostToken.elements, hlast]
  | some f => simp [PostToken.elements, FormFile.tokens, hlast]

theorem renderForm_eq (parts : List (FormPart line)) (hline : line ≠ []) :
    renderForm line parts = line ++ renderTokens line (formTokens parts) := by
  have hparts : parts.flatMap FormPart.render = renderTokens line (parts.flatMap FormPart.tokens) := by
    induction parts with
    | nil => rfl
    | cons p parts ih =>
      rw [List.flatMap_cons, List.flatMap_cons, renderTokens_append, ih, p.render_eq hline]
  unfold renderForm formTokens
  rw [renderTokens_append, hparts, List.append_assoc]
  rfl

theorem formElements_eq (parts : List (FormPart line)) (hline : line ≠ []) :
    formElements line parts = ⟨.boundary, line⟩ :: tokenElements line (formTokens parts) := by
  have hparts : parts.flatMap FormPart.elements = tokenElements line (parts.flatMap FormPart.tokens) := by
    induction parts with
    | nil => rfl
    | cons p parts ih =>
      rw [List.flatMap_cons, List.flatMap_cons, tokenElements_append, ih, p.elements_eq hline]
  unfold formElements formTokens
  rw [tokenElements_append, hparts]
  rfl

theorem FormFile.contentType_find (f : FormFile) :
    findInfix crlf ((f.contentType ++ crlf).drop 1) = some (f.contentType.length - 1) :=
  findInfix_drop (findInfix_append_self f.crlf_free (by decide)) (List.length_pos_iff.mpr f.ne_nil)

theorem FormPart.delimited (p : FormPart line) (hcr : 13 ∉ line) : Delimited line p.value := by
  refine findInfix_append_self p.delimiter_free fun h => ?_
  rcases List.mem_cons.mp h with he | h
  · exact absurd he (by decide)
  · exact hcr (List.mem_of_mem_dropLast h)

theorem FormPart.tokens_append (p : FormPart line) (hcr : 13 ∉ line) {ts : List PostToken}
    (h : Tokens line .boundary ts) : Tokens line .boundary (p.tokens ++ ts) := by
  have hvalue : Tokens line .emptyLine (.value p.value (line.getLast?.getD 0) :: ts) :=
    .value (p.delimited hcr) h
  unfold tokens
  cases p.file with
  | none => exact .formData (.name p.quote_free (.emptyName hvalue))
  | some f =>
    exact .formData (.name p.quote_free (.filename f.quote_free
      (.contentType f.ne_nil f.contentType_find (.emptyType hvalue))))

theorem formTokens_tokens (parts : List (FormPart line)) (hcr : 13 ∉ line) :
    Tokens line .boundary (formTokens parts) := by
  unfold formTokens
  induction parts with
  | nil => exact .finish
  | cons p parts ih =>
    rw [List.flatMap_cons, List.append_assoc]
    exact p.tokens_append hcr ih

end

/-! ## 終わりまで読む -/

section

variable {line : List UInt8} {e : PostEt} {ts : List PostToken}

theorem PostToken.after_ne_value (x : PostToken) : x.after ≠ .value := by
  cases x <;> exact fun h => nomatch h

theorem PostToken.emitted_of_ne (x : PostToken) (he : e ≠ .value) : x.emitted line e = x.elements line := by
  unfold emitted
  split
  · exact absurd rfl he
  · rfl

/-- **token の列を終わりまで読めば、そのすべての要素を渡す。** -/
theorem Tokens.emits (h : Tokens line e ts) :
    ∃ es, Emits line e ts (renderTokens line ts).length es .finish [] ∧
      (e ≠ .value → es = tokenElements line ts) := by
  induction ts generalizing e with
  | nil =>
    cases h
    exact ⟨[], .here _ _, fun _ => rfl⟩
  | cons x ts ih =>
    have hemitted : ∀ {es}, es = tokenElements line ts →
        (e ≠ .value → x.emitted line e ++ es = tokenElements line (x :: ts)) := by
      rintro es rfl he
      rw [x.emitted_of_ne he, tokenElements_cons]
    obtain ⟨es, hemits, hes⟩ := ih h.tail
    have hlen : (renderTokens line (x :: ts)).length
        = (x.render line).length + (renderTokens line ts).length := List.length_append
    rw [hlen]
    refine ⟨_, .next e hemits fun hzero s hs => ?_, hemitted (hes x.after_ne_value)⟩
    -- 型の次には空行がある
    subst hs
    cases h.tail
    exact absurd (List.length_eq_zero_iff.mp hzero) (List.cons_ne_nil _ _)

end

/-! ## 本体 -/

structure PostBody where
  line : List UInt8
  tokens : List PostToken
  boundaryLine : BoundaryLine line
  wf : Tokens line .boundary tokens
  /-- 区切りの行の次は改行である -/
  starts : crlf <+: renderTokens line tokens

def PostBody.render (b : PostBody) : List UInt8 := b.line ++ renderTokens b.line b.tokens

/-- **本体を一つの buffer で読めば、区切りの行と、token のすべての要素が渡る。** -/
theorem PostBody.read {σ : Type*} {cb : PostDataParserAppCb σ} (hcb : ∀ a e b, (cb a e b).1 = 0)
    (beyond : Nat → UInt8) (b : PostBody) (app : σ) :
    ∃ r, postDataParser beyond b.render cb .init app = some r ∧ r.ret = 0 ∧
      r.ctx.lastItemType = .finish ∧
      elements r.events = ⟨.boundary, b.line⟩ :: tokenElements b.line b.tokens := by
  obtain ⟨s, hlast, hi, hel, hstart⟩ := postDataParser_start beyond hcb b.boundaryLine b.starts app
  obtain ⟨es, hemits, hes⟩ := b.wf.emits
  obtain ⟨t, hloop, hels, -, hended⟩ := pdpLoop_emits hcb beyond hemits hlast b.wf
    (show s.i ≤ (b.line ++ renderTokens b.line b.tokens).length by
      rw [hi, List.length_append]
      exact Nat.le_add_right _ _)
    (by rw [hi, List.drop_left, List.take_length]) (Nat.sub_le _ _)
  obtain ⟨hret, hctx, hevents⟩ := hended.result cb ⟨.void, delimiter b.line⟩
  rw [PostBody.render, hstart, hloop]
  refine ⟨_, rfl, hret, by rw [hctx], ?_⟩
  rw [hevents, hels, hel, hes (fun h => nomatch h)]
  rfl

section

variable {line : List UInt8} {parts : List (FormPart line)} (hlower : 4 ≤ line.length)
  (hupper : line.length ≤ 254) (hcr : 13 ∉ line) (hparts : parts ≠ [])

def formBody : PostBody where
  line := line
  tokens := formTokens parts
  boundaryLine := BoundaryLine.of_notMem hlower hupper hcr
  wf := formTokens_tokens parts hcr
  starts := by
    -- 初めの部分は改行で始まる
    obtain ⟨p, parts, rfl⟩ := List.exists_cons_of_ne_nil hparts
    exact ⟨_, rfl⟩

theorem formBody_render : (formBody hlower hupper hcr hparts).render = renderForm line parts := by
  rw [renderForm_eq parts (BoundaryLine.of_notMem hlower hupper hcr).ne_nil]
  rfl

theorem formBody_elements :
    ⟨.boundary, (formBody hlower hupper hcr hparts).line⟩ ::
        tokenElements (formBody hlower hupper hcr hparts).line (formBody hlower hupper hcr hparts).tokens
      = formElements line parts :=
  (formElements_eq parts (BoundaryLine.of_notMem hlower hupper hcr).ne_nil).symm

end

/--
**一つの buffer に書いた form を読めば、区切りの行、部分ごとの要素、終わりの印が順に渡り、0 が返る。**
-/
theorem post_round_trip {σ : Type*} {cb : PostDataParserAppCb σ} (hcb : ∀ a e b, (cb a e b).1 = 0)
    (beyond : Nat → UInt8) {line : List UInt8} (hlower : 4 ≤ line.length) (hupper : line.length ≤ 254)
    (hcr : 13 ∉ line) (parts : List (FormPart line)) (hparts : parts ≠ []) (app : σ) :
    ∃ r, postDataParser beyond (renderForm line parts) cb .init app = some r ∧ r.ret = 0 ∧
      elements r.events = formElements line parts := by
  obtain ⟨r, hr, hret, -, hels⟩ := PostBody.read hcb beyond (formBody hlower hupper hcr hparts) app
  rw [formBody_render] at hr
  rw [formBody_elements] at hels
  exact ⟨r, hr, hret, hels⟩

/-- file を一つ持つ部分。区切りの行は `--ab` である。 -/
def FormPart.sample : FormPart [45, 45, 97, 98] where
  name := [110]
  quote_free := by decide
  file := some {
    filename := [102]
    quote_free := by decide
    contentType := [116]
    ne_nil := by decide
    crlf_free := by decide }
  value := [13, 10, 45, 45]
  delimiter_free := by decide

/-- file を一つ持つ form。 -/
theorem post_round_trip_sample :
    ∃ r, postDataParser (fun _ => 0) (renderForm [45, 45, 97, 98] [.sample]) (fun _ _ _ => (0, ()))
        .init () = some r ∧ r.ret = 0 ∧
      elements r.events = formElements [45, 45, 97, 98] [.sample] :=
  post_round_trip (fun _ _ _ => rfl) (fun _ => 0) (by decide) (by decide) (by decide) [.sample]
    (List.cons_ne_nil _ _) ()

end Esq
