import Esq.Basic
import Esq.Libs.EscapePercent
import Esq.Libs.RemoveRedundancySlash
import Esq.Libs.Sscanf

/-!
# file を送る

`modules/simple-file-service/handler.c` の `sfs_handler`。

`:path` の残りを decode し、安全な経路かを見て、`local_path_head` の後ろに写し、余分な `/` を除く。
どれも buffer の上で行うので、長さは途中で古くなる。`lstat` などに渡すのは NUL までの文字列である。
-/

namespace Esq

open Infra

def sfsFlagsAllowUpload : UInt32 := 2

def sfsFlagsSendIndexHtml : UInt32 := 4

def sfsDefaultPage : List UInt8 := [105, 110, 100, 101, 120, 46, 104, 116, 109, 108, 0]

def sfsLocalPathLenMax : Nat := 512

/-- `sfs_service_ctx_t` のうち、読む欄。長さは `sfs_bind_instance` が確かめる。 -/
structure SfsServiceCtx where
  flags : UInt32
  localPathHead : CStr
  ne_nil : localPathHead.bytes ≠ []
  short : localPathHead.bytes.length < sfsLocalPathLenMax

inductive FileKind where
  | dir
  | reg
  | other

structure SfsIo where
  mallocOk : Bool
  /-- `malloc` した領域に残っている byte -/
  fresh : Nat → UInt8
  /-- 一度めと二度めの `lstat`。失敗は `none` である -/
  lstat : Nat → List UInt8 → Option FileKind
  sfsFile : List UInt8 → Int
  sfsFolder : List UInt8 → Int

inductive SfsUse where
  | lstat (path : List UInt8)
  | file (path : List UInt8)
  | folder (path : List UInt8)

def SfsUse.path : SfsUse → List UInt8
  | lstat path => path
  | file path => path
  | folder path => path

/-- `sfs_handler` の、`fullpath` ができた後。 -/
def sfsServe (io : SfsIo) (ctx : SfsServiceCtx) (fullPathLen : Nat) (fullpath : List UInt8) :
    Int × List SfsUse :=
  let path := cstring fullpath
  match io.lstat 0 path with
  | none => (nghttp2ErrCallbackFailure, [.lstat path])
  | some .dir =>
    if sfsFlagsSendIndexHtml &&& ctx.flags ≠ 0 then
      let indexed := splice fullpath fullPathLen sfsDefaultPage
      let page := cstring indexed
      match io.lstat 1 page with
      | none =>
        let path' := cstring (indexed.set fullPathLen 0)
        (io.sfsFolder path', [.lstat path, .lstat page, .folder path'])
      | some .reg => (io.sfsFile page, [.lstat path, .lstat page, .file page])
      | some _ => (io.sfsFolder page, [.lstat path, .lstat page, .folder page])
    else (io.sfsFolder path, [.lstat path, .folder path])
  | some .reg => (io.sfsFile path, [.lstat path, .file path])
  | some .other => (nghttp2ErrCallbackFailure, [.lstat path])

/-- `malloc` した `fullpath` に経路を書く。`tail` は `path + matched_length` から先である。 -/
def sfsFullpath (io : SfsIo) (ctx : SfsServiceCtx) (tail : List UInt8) (len : Nat) : List UInt8 :=
  let headLen := ctx.localPathHead.bytes.length
  let fullPathLen := len + headLen
  let fullpath := (List.range (fullPathLen + 1 + sfsDefaultPage.length)).map io.fresh
  let fullpath := splice fullpath 0 ctx.localPathHead.bytes
  let fullpath := splice fullpath headLen (tail.take len)
  let fullpath := fullpath.set fullPathLen 0
  fullpath.take headLen ++ (removeRedundancySlash (fullpath.drop headLen)).2

/-- `sfs_handler`。`path` は `:path`、`method` は `:method` である。 -/
def sfsHandler (io : SfsIo) (ctx : SfsServiceCtx) (matchedLength : Nat) (path : List UInt8)
    (method : Option (List UInt8)) : Int × List SfsUse :=
  let (r, tail) := escapePercentInPlace ((path ++ [0]).drop matchedLength)
    (path.length - matchedLength)
  if r < 0 then (nghttp2ErrCallbackFailure, [])
  else
    let tail := tail.set r.toNat 0
    if !pathIsVerySafe tail then (nghttp2ErrCallbackFailure, [])
    else if method.isNone then (nghttp2ErrCallbackFailure, [])
    else if !io.mallocOk then (nghttp2ErrCallbackFailure, [])
    else sfsServe io ctx (r.toNat + ctx.localPathHead.bytes.length)
      (sfsFullpath io ctx tail r.toNat)

/-! ## 渡す経路 -/

/-- `head` の後ろに、どの部分も `.` で始まらない相対経路が続く。 -/
def Confined (head path : List UInt8) : Prop :=
  ∃ rel, path = head ++ rel ∧ rel.head? ≠ some 47 ∧ ∀ x ∈ rel.splitOn 47, x.head? ≠ some 46

section

variable {h s r w : List UInt8} {k : Nat}

theorem confined_of_components {rel : List UInt8} (hslash : rel.head? ≠ some 47)
    (hdot : ∀ x ∈ components (· == 47) rel, x.head? ≠ some 46) : Confined h (h ++ rel) := by
  refine ⟨rel, rfl, hslash, fun x hx => ?_⟩
  by_cases hne : x = []
  · rw [hne]
    simp
  · refine hdot x (List.mem_filter.mpr ⟨?_, by simpa using hne⟩)
    rw [← List.splitOn_eq_splitOnP]
    exact hx

theorem splice_cases (hk : s.length ≤ k) :
    (s.length < k ∧ ∃ r', splice (h ++ (s ++ 0 :: r)) (h.length + k) w
        = h ++ (s ++ 0 :: r')) ∨
      (s.length = k ∧ ∃ r', splice (h ++ (s ++ 0 :: r)) (h.length + k) w
        = h ++ (s ++ (w ++ r'))) := by
  unfold splice
  rcases hk.lt_or_eq with hlt | rfl
  · refine Or.inl ⟨hlt, ?_⟩
    obtain ⟨m, rfl⟩ : ∃ m, k = s.length + (m + 1) := ⟨k - s.length - 1, by omega⟩
    rw [List.take_length_add_append, List.take_length_add_append, List.take_succ_cons]
    simp only [List.append_assoc, List.cons_append]
    exact ⟨_, rfl⟩
  · refine Or.inr ⟨rfl, ?_⟩
    rw [List.take_length_add_append, List.take_left]
    simp only [List.append_assoc]
    exact ⟨_, rfl⟩

/-- **`fullpath` は、頭の後ろに、`t` の文字列をまとめたものである。** -/
theorem sfsFullpath_eq (io : SfsIo) (ctx : SfsServiceCtx) {t : List UInt8} {n : Nat}
    (hlen : n ≤ t.length) : ∃ rest, sfsFullpath io ctx t n
      = ctx.localPathHead.bytes ++
          (squeeze isSlash 47 false (cstring (t.take n)) ++ 0 :: rest) := by
  have htake : (t.take n).length = n := by
    rw [List.length_take]
    omega
  -- 写し終えたところで、頭と `t` の後ろに NUL がある
  obtain ⟨ys, hbuf⟩ : ∃ ys, ((splice (splice ((List.range (n + ctx.localPathHead.bytes.length + 1 +
      sfsDefaultPage.length)).map io.fresh) 0 ctx.localPathHead.bytes)
        ctx.localPathHead.bytes.length
      (t.take n)).set (n + ctx.localPathHead.bytes.length) 0)
      = ctx.localPathHead.bytes ++ (t.take n ++ 0 :: ys) := by
    unfold splice
    rw [List.take_zero, List.nil_append, Nat.zero_add, List.take_left, htake, List.drop_append,
      List.drop_eq_nil_of_le (by omega), List.nil_append, List.drop_drop, List.append_assoc]
    generalize hF : (List.range (n + ctx.localPathHead.bytes.length + 1 +
      sfsDefaultPage.length)).map io.fresh = F
    have hFlen : F.length = n + ctx.localPathHead.bytes.length + 1 + sfsDefaultPage.length := by
      rw [← hF, List.length_map, List.length_range]
    have hpos : 0 < (F.drop (ctx.localPathHead.bytes.length + (ctx.localPathHead.bytes.length + n -
        ctx.localPathHead.bytes.length))).length := by
      rw [List.length_drop]
      omega
    obtain ⟨y, ys, hys⟩ := List.exists_cons_of_length_pos hpos
    refine ⟨ys, ?_⟩
    rw [hys, List.set_append_right _ _ (by omega), List.set_append_right _ _ (by omega), htake]
    have hz : n + ctx.localPathHead.bytes.length - ctx.localPathHead.bytes.length - n = 0 := by
      omega
    rw [hz, List.set_cons_zero]
  unfold sfsFullpath
  dsimp only
  rw [hbuf, List.take_left, List.drop_left,
    removeRedundancySlash_eq (List.mem_append_right _ List.mem_cons_self), cstring_append_zero']
  exact ⟨_, rfl⟩

theorem cstring_indexed (hhead : 0 ∉ h) (hsq : 0 ∉ s) (hk : s.length ≤ k) :
    let indexed := splice (h ++ (s ++ 0 :: r)) (h.length + k) sfsDefaultPage
    (cstring indexed = h ++ s ∨ cstring indexed = h ++ (s ++ sfsDefaultPage.dropLast)) ∧
      cstring (indexed.set (h.length + k) 0) = h ++ s := by
  dsimp only
  rcases splice_cases (h := h) (r := r) (w := sfsDefaultPage) hk with
    ⟨hlt, r', hrest⟩ | ⟨heq, r', hrest⟩
  · obtain ⟨m, hm⟩ : ∃ m, h.length + k = h.length + (s.length + (m + 1)) :=
      ⟨k - s.length - 1, by omega⟩
    rw [hrest]
    refine ⟨Or.inl (by rw [cstring_append hhead, cstring_append_zero hsq]), ?_⟩
    rw [hm, List.set_append_right _ _ (by omega), List.set_append_right _ _ (by omega),
      Nat.add_sub_cancel_left, Nat.add_sub_cancel_left, List.set_cons_succ, cstring_append hhead,
      cstring_append_zero hsq]
  · have hpage : sfsDefaultPage = sfsDefaultPage.dropLast ++ [0] := rfl
    rw [hrest]
    refine ⟨Or.inr ?_, ?_⟩
    · rw [cstring_append hhead, cstring_append hsq, hpage, List.append_assoc]
      exact congrArg (fun x => h ++ (s ++ x)) (cstring_append_zero (by decide) r')
    · rw [List.set_append_right _ _ (by omega), List.set_append_right _ _ (by omega), heq]
      have hz : h.length + k - h.length - k = 0 := by omega
      rw [hz, cstring_append hhead]
      exact congrArg (h ++ ·) (cstring_append_zero hsq _)

theorem head_squeeze {s : List UInt8} (h : ∀ c ∈ s.head?, isSlash c = false) :
    (squeeze isSlash 47 false s).head? = s.head? := by
  cases s with
  | nil => rfl
  | cons c s =>
    have hc : isSlash c = false := h c rfl
    simp only [squeeze, hc, Bool.false_eq_true, if_false, List.head?_cons]

/-- **安全な経路をまとめたものと、その後ろに `index.html` を続けたものは、頭の外に出ない。** -/
theorem confined_of_safe (hslash : ∀ c ∈ s.head?, isSlash c = false) (hdot : NoHidden s) :
    Confined h (h ++ squeeze isSlash 47 false s) ∧
      Confined h (h ++ (squeeze isSlash 47 false s ++ sfsDefaultPage.dropLast)) := by
  have hcomp : ∀ x ∈ components (· == 47) (squeeze isSlash 47 false s), x.head? ≠ some 46 := by
    rw [components_squeeze rfl]
    exact hdot
  have hhead : (squeeze isSlash 47 false s).head? ≠ some 47 := by
    rw [head_squeeze hslash]
    intro he
    exact absurd (hslash 47 he) (by decide)
  refine ⟨confined_of_components hhead hcomp, confined_of_components ?_ ?_⟩
  · cases hsq : squeeze isSlash 47 false s with
    | nil => decide
    | cons c rest =>
      rw [hsq] at hhead
      exact hhead
  · have hpage : ∀ x ∈ sfsDefaultPage.dropLast, (x == 47) = false := by decide +kernel
    have hhead : sfsDefaultPage.dropLast.head? ≠ some 46 := by decide +kernel
    exact head_ne_of_append hpage hhead _ [] (fun x hx => by cases hx) hcomp

theorem sfsServe_paths (io : SfsIo) (ctx : SfsServiceCtx) {fullpath : List UInt8}
    {fullPathLen : Nat}
    {P : List UInt8 → Prop} (hpath : P (cstring fullpath))
    (hpage : P (cstring (splice fullpath fullPathLen sfsDefaultPage)))
    (hback : P (cstring ((splice fullpath fullPathLen sfsDefaultPage).set fullPathLen 0))) :
    ∀ u ∈ (sfsServe io ctx fullPathLen fullpath).2, P u.path := by
  unfold sfsServe
  dsimp only
  split
  · simpa [SfsUse.path] using hpath
  · split
    · split
      · simpa [SfsUse.path] using ⟨hpath, hpage, hback⟩
      · simpa [SfsUse.path] using ⟨hpath, hpage⟩
      · simpa [SfsUse.path] using ⟨hpath, hpage⟩
    · simpa [SfsUse.path] using hpath
  · simpa [SfsUse.path] using hpath
  · simpa [SfsUse.path] using hpath

end

theorem squeeze_cstring_bound (rel : List UInt8) :
    0 ∉ squeeze isSlash 47 false (cstring rel) ∧
      (squeeze isSlash 47 false (cstring rel)).length ≤ rel.length := by
  constructor
  · intro hm
    rcases mem_squeeze hm with he | ⟨hm, -⟩
    · exact absurd he (by decide)
    · exact zero_notMem_cstring _ hm
  · exact (length_squeeze_le _ _).trans (length_cstring_le _)

/--
**`lstat`・`sfs_file`・`sfs_folder` に渡る経路は、どれも `local_path_head` の後ろに、どの部分も `.` で
始まらない相対経路が続いたものである。**
-/
theorem download_confined (io : SfsIo) (ctx : SfsServiceCtx) (matchedLength : Nat)
    (path : List UInt8)
    (method : Option (List UInt8)) :
    ∀ u ∈ (sfsHandler io ctx matchedLength path method).2,
      Confined ctx.localPathHead.bytes u.path := by
  unfold sfsHandler
  rcases hescape : escapePercentInPlace ((path ++ [0]).drop matchedLength)
    (path.length - matchedLength) with ⟨r, tail⟩
  obtain ⟨htail, hr, -⟩ := escapePercentInPlace_bound hescape
  have hhead : 0 ∉ ctx.localPathHead.bytes := ctx.localPathHead.property
  rw [hescape]
  dsimp only
  split
  · exact fun u hu => by cases hu
  split
  · exact fun u hu => by cases hu
  next hsafe =>
  split
  · exact fun u hu => by cases hu
  split
  · exact fun u hu => by cases hu
  have hsafe : pathIsVerySafe (tail.set r.toNat 0) = true := by simpa using hsafe
  -- 読んだ長さは領域に収まり、decode した列の次に NUL がある
  have hlt : r.toNat < tail.length := by
    rw [List.length_drop, List.length_append, List.length_singleton] at htail
    by_contra hno
    have hnil : tail = [] := List.length_eq_zero_iff.mp (by omega)
    rw [hnil, List.set_nil] at hsafe
    exact absurd hsafe (by decide)
  generalize htail' : tail.set r.toNat 0 = tail' at hsafe ⊢
  have hcstring : cstring tail' = cstring (tail'.take r.toNat) := by
    have hsplit : tail' = tail'.take r.toNat ++ 0 :: tail'.drop (r.toNat + 1) := by
      conv_lhs => rw [← List.take_append_drop r.toNat tail']
      rw [List.drop_eq_getElem_cons (by rw [← htail', List.length_set]; exact hlt)]
      simp only [← htail', List.getElem_set_self]
    conv_lhs => rw [hsplit]
    exact cstring_append_zero' _ _
  obtain ⟨hslash, hdot⟩ := noHidden_of_safe hsafe
  rw [hcstring] at hslash hdot
  obtain ⟨rest, hfull⟩ := sfsFullpath_eq io ctx (t := tail') (n := r.toNat)
    (by rw [← htail', List.length_set]; omega)
  obtain ⟨hzero, hlen⟩ := squeeze_cstring_bound (tail'.take r.toNat)
  have hlen := hlen.trans (List.length_take_le _ _)
  obtain ⟨hpage, hback⟩ := cstring_indexed (r := rest) hhead hzero hlen
  obtain ⟨hplain, hindex⟩ := confined_of_safe (h := ctx.localPathHead.bytes) hslash hdot
  rw [hfull, Nat.add_comm]
  refine sfsServe_paths io ctx ?_ ?_ ?_
  · rw [cstring_append hhead, cstring_append_zero hzero]
    exact hplain
  · rcases hpage with he | he
    · rw [he]
      exact hplain
    · rw [he]
      exact hindex
  · rw [hback]
    exact hplain

/-- `/srv/` の下を見せる service。どの経路も普通の file である。 -/
def SfsServiceCtx.download : SfsServiceCtx where
  flags := 0
  localPathHead := ⟨[47, 115, 114, 118, 47], by decide⟩
  ne_nil := by decide
  short := by decide

def SfsIo.regular : SfsIo where
  mallocOk := true
  fresh _ := 0
  lstat _ _ := some .reg
  sfsFile _ := 0
  sfsFolder _ := 0

/-- `/f/a//b` の `/f/` から後ろを求められて、`/srv/a/b` を送る。 -/
theorem download_confined_regular :
    ∃ u ∈ (sfsHandler .regular .download 3 [47, 102, 47, 97, 47, 47, 98] (some [71, 69, 84])).2,
      u.path = [47, 115, 114, 118, 47, 97, 47, 98] ∧ Confined [47, 115, 114, 118, 47] u.path := by
  have huses : (sfsHandler .regular .download 3 [47, 102, 47, 97, 47, 47, 98] (some [71, 69, 84])).2
      = [.lstat [47, 115, 114, 118, 47, 97, 47, 98], .file [47, 115, 114, 118, 47, 97, 47, 98]] :=
        rfl
  have hmem : SfsUse.file [47, 115, 114, 118, 47, 97, 47, 98]
      ∈ (sfsHandler .regular .download 3 [47, 102, 47, 97, 47, 47, 98] (some [71, 69, 84])).2 := by
    rw [huses]
    exact List.mem_cons_of_mem _ List.mem_cons_self
  exact ⟨_, hmem, rfl, download_confined .regular .download 3 _ _ _ hmem⟩

end Esq
