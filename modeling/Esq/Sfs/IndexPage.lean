import Esq.Libs.PathGrammar
import Esq.Sfs.Handler

/-!
# directory の index.html

`sfs_handler` は、`full_path_len` に `SFS_DEFAULT_PAGE` を写して、directory の `index.html` を探す。`full_path_len`
は余分な `/` を除く前の長さである。除いたものがあれば、写した名前は NUL の後ろに隠れる。除いたものが無ければ、間に
`/` が無いまま directory の名前に続く。
-/

namespace Esq

open Infra

def indexName : List UInt8 := sfsDefaultPage.dropLast

def indexPage (dir : List UInt8) : List UInt8 :=
  (if dir.getLast? = some 47 then dir else dir ++ [47]) ++ indexName

/-- directory への答え。`index.html` が普通の file ならそれを送り、なければ directory を見せる。 -/
def indexAnswer (io : SfsIo) (dir : List UInt8) : SfsUse :=
  match io.lstat 1 (indexPage dir) with
  | some .reg => .file (indexPage dir)
  | _ => .folder dir

def sfsFolderPath (ctx : SfsServiceCtx) (rel : List UInt8) : List UInt8 :=
  ctx.localPathHead.bytes ++ squeeze isSlash 47 false (cstring rel)

/-- `:path` の `matched_length` より後ろは、decode すると `rel` で、安全な経路であり、directory を指す。 -/
structure NamesFolder (io : SfsIo) (ctx : SfsServiceCtx) (matchedLength : Nat)
    (path rel : List UInt8) :
    Prop where
  matched : matchedLength ≤ path.length
  decoded : ∃ rest, escapePercentInPlace ((path ++ [0]).drop matchedLength)
    (path.length - matchedLength)
    = ((rel.length : Int), rel ++ rest)
  safe : pathIsVerySafe (rel ++ [0]) = true
  /-- 見る間は directory のままである -/
  dir : ∀ k, io.lstat k (sfsFolderPath ctx rel) = some .dir

/-- 答えが正しい条件。除いた byte があるとき、`index.html` が正しく続くとき、ほかのときに分かれる。 -/
def IndexReached (io : SfsIo) (ctx : SfsServiceCtx) (rel : List UInt8) : Prop :=
  let dir := sfsFolderPath ctx rel
  if (squeeze isSlash 47 false (cstring rel)).length < rel.length then
    io.lstat 1 (indexPage dir) ≠ some .reg
  else if dir.getLast? = some 47 then
    ∀ kind, io.lstat 1 (indexPage dir) = some kind → kind = .reg
  else
    io.lstat 1 (dir ++ indexName) = none ∧ io.lstat 1 (indexPage dir) ≠ some .reg

section

variable {io : SfsIo} {ctx : SfsServiceCtx} {matchedLength : Nat} {path rel method : List UInt8}

def indexTried (ctx : SfsServiceCtx) (rel : List UInt8) : List UInt8 :=
  if (squeeze isSlash 47 false (cstring rel)).length < rel.length then sfsFolderPath ctx rel
  else sfsFolderPath ctx rel ++ indexName

theorem cstring_index (ctx : SfsServiceCtx) (rel rest : List UInt8) :
    let fullpath := ctx.localPathHead.bytes ++ (squeeze isSlash 47 false (cstring rel) ++ 0 :: rest)
    let indexed := splice fullpath (ctx.localPathHead.bytes.length + rel.length) sfsDefaultPage
    cstring indexed = indexTried ctx rel ∧
      cstring (indexed.set (ctx.localPathHead.bytes.length + rel.length) 0)
        = sfsFolderPath ctx rel := by
  have hhead : 0 ∉ ctx.localPathHead.bytes := ctx.localPathHead.property
  obtain ⟨hzero, hlen⟩ := squeeze_cstring_bound rel
  refine ⟨?_, (cstring_indexed hhead hzero hlen).2⟩
  unfold indexTried sfsFolderPath
  rcases splice_cases (h := ctx.localPathHead.bytes) (r := rest) (w := sfsDefaultPage) hlen with
    ⟨hlt, r', hrest⟩ | ⟨heq, r', hrest⟩
  · rw [if_pos hlt, hrest, cstring_append hhead, cstring_append_zero hzero]
  · have hpage : sfsDefaultPage = indexName ++ [0] := rfl
    have hname : 0 ∉ indexName := by decide
    rw [if_neg (by omega), hrest, hpage, cstring_append hhead, cstring_append hzero,
      List.append_assoc,
      List.singleton_append, cstring_append_zero hname, List.append_assoc]

theorem sfsHandler_index (hindex : sfsFlagsSendIndexHtml &&& ctx.flags ≠ 0)
    (hmalloc : io.mallocOk = true)
    (hnames : NamesFolder io ctx matchedLength path rel) :
    (sfsHandler io ctx matchedLength path (some method)).2.getLast? = some
      (match io.lstat 1 (indexTried ctx rel) with
      | none => .folder (sfsFolderPath ctx rel)
      | some .reg => .file (indexTried ctx rel)
      | some _ => .folder (indexTried ctx rel)) := by
  obtain ⟨rest, hescape⟩ := hnames.decoded
  -- decode した列の後ろに NUL を置く
  obtain ⟨z, rest, rfl⟩ : ∃ z rest', rest = z :: rest' := by
    obtain ⟨htail, hr, -⟩ := escapePercentInPlace_bound hescape
    refine List.exists_cons_of_ne_nil fun hnil => ?_
    rw [hnil, List.append_nil, List.length_drop, List.length_append, List.length_singleton] at htail
    have hmatched := hnames.matched
    omega
  have hset : (rel ++ z :: rest).set (rel.length : Int).toNat 0 = rel ++ 0 :: rest := by
    rw [Int.toNat_natCast, List.set_append_right _ _ le_rfl, Nat.sub_self, List.set_cons_zero]
  have htake : (rel ++ 0 :: rest).take rel.length = rel := List.take_left
  have hsafe : pathIsVerySafe (rel ++ 0 :: rest) = true := by
    rw [pathIsVerySafe_nul]
    exact hnames.safe
  obtain ⟨rest', hfull⟩ := sfsFullpath_eq io ctx (show rel.length ≤ (rel ++ 0 :: rest).length by
    rw [List.length_append]
    omega)
  rw [htake] at hfull
  obtain ⟨hpage, hback⟩ := cstring_index ctx rel rest'
  have hdir : cstring (ctx.localPathHead.bytes ++
    (squeeze isSlash 47 false (cstring rel) ++ 0 :: rest'))
      = sfsFolderPath ctx rel := by
    have hhead : 0 ∉ ctx.localPathHead.bytes := ctx.localPathHead.property
    rw [cstring_append hhead, cstring_append_zero (squeeze_cstring_bound rel).1]
    rfl
  unfold sfsHandler
  rw [hescape]
  dsimp only
  rw [if_neg (by omega), hset, hsafe, hmalloc, Int.toNat_natCast, hfull, Nat.add_comm]
  unfold sfsServe
  dsimp only [Bool.not_true, Option.isNone_some]
  rw [if_neg (by simp), if_neg (by simp), if_neg (by simp), hdir, hnames.dir 0]
  dsimp only
  rw [if_pos hindex, hpage, hback]
  cases io.lstat 1 (indexTried ctx rel) with
  | none => rfl
  | some kind =>
    cases kind with
    | dir => rfl
    | reg => rfl
    | other => rfl

theorem indexPage_eq_iff (dir : List UInt8) : indexPage dir = dir ++ indexName ↔ dir.getLast?
    = some 47 := by
  unfold indexPage
  by_cases h : dir.getLast? = some 47
  · rw [if_pos h]
    exact iff_of_true rfl h
  · rw [if_neg h, List.append_assoc, List.append_cancel_left_eq]
    exact iff_of_false (by decide) h

theorem indexAnswer_of_reg {dir : List UInt8} (h : io.lstat 1 (indexPage dir) = some .reg) :
    indexAnswer io dir = .file (indexPage dir) := by
  unfold indexAnswer
  rw [h]

theorem indexAnswer_of_not_reg {dir : List UInt8} (h : io.lstat 1 (indexPage dir) ≠ some .reg) :
    indexAnswer io dir = .folder dir := by
  unfold indexAnswer
  split
  next hreg => exact absurd hreg h
  · rfl

/--
**directory への答えが、その中の `index.html` か、なければその directory であるのは、次のとき、そのときに限る。**
`/` を除いた経路では、`index.html` が無い。`local_path_head` そのものでは、`index.html` が普通の file でないまま
在ることがない。ほかの経路では、`index.html` が無く、directory の名前に `index.html` をそのまま続けた名前も無い。
-/
theorem index_page_iff (hindex : sfsFlagsSendIndexHtml &&& ctx.flags ≠ 0)
    (hmalloc : io.mallocOk = true)
    (hnames : NamesFolder io ctx matchedLength path rel) :
    (sfsHandler io ctx matchedLength path (some method)).2.getLast?
        = some (indexAnswer io (sfsFolderPath ctx rel)) ↔ IndexReached io ctx rel := by
  rw [sfsHandler_index hindex hmalloc hnames, Option.some.injEq]
  unfold IndexReached indexTried
  dsimp only
  generalize hfolder : sfsFolderPath ctx rel = dir
  have hdir := hnames.dir 1
  rw [hfolder] at hdir
  by_cases hlt : (squeeze isSlash 47 false (cstring rel)).length < rel.length
  · -- 写した名前は隠れ、directory をもう一度見る
    rw [if_pos hlt, if_pos hlt, hdir]
    by_cases hreg : io.lstat 1 (indexPage dir) = some .reg
    · rw [indexAnswer_of_reg hreg]
      exact iff_of_false (fun h => by cases h) (fun h => h hreg)
    · rw [indexAnswer_of_not_reg hreg]
      exact iff_of_true rfl hreg
  · rw [if_neg hlt, if_neg hlt]
    by_cases hlast : dir.getLast? = some 47
    · -- 正しい名前を見る
      rw [if_pos hlast, (indexPage_eq_iff dir).mpr hlast]
      have hne : dir ++ indexName ≠ dir := fun h => absurd (List.append_right_eq_self.mp h)
        (by decide)
      cases hkind : io.lstat 1 (dir ++ indexName) with
      | none =>
        refine iff_of_true ?_ (fun kind h => by cases h)
        rw [indexAnswer_of_not_reg]
        rw [(indexPage_eq_iff dir).mpr hlast, hkind]
        simp
      | some kind =>
        cases kind with
        | reg =>
          refine iff_of_true ?_ (fun kind h => (Option.some.inj h).symm)
          rw [indexAnswer_of_reg (by rw [(indexPage_eq_iff dir).mpr hlast, hkind]),
            (indexPage_eq_iff dir).mpr hlast]
        | _ =>
          rw [indexAnswer_of_not_reg (by rw [(indexPage_eq_iff dir).mpr hlast, hkind]; simp)]
          refine iff_of_false (fun h => hne (SfsUse.folder.inj h)) fun h => ?_
          cases h _ rfl
    · -- 隣の名前を見る
      rw [if_neg hlast]
      have hne : dir ++ indexName ≠ indexPage dir := fun h => hlast
        ((indexPage_eq_iff dir).mp h.symm)
      have hne' : dir ++ indexName ≠ dir := fun h => absurd (List.append_right_eq_self.mp h)
        (by decide)
      cases hkind : io.lstat 1 (dir ++ indexName) with
      | none =>
        rw [eq_self, true_and]
        by_cases hreg : io.lstat 1 (indexPage dir) = some .reg
        · rw [indexAnswer_of_reg hreg]
          exact iff_of_false (fun h => by cases h) (fun h => h hreg)
        · rw [indexAnswer_of_not_reg hreg]
          exact iff_of_true rfl hreg
      | some kind =>
        refine iff_of_false (fun h => ?_) (fun h => by cases h.1)
        by_cases hreg : io.lstat 1 (indexPage dir) = some .reg
        · rw [indexAnswer_of_reg hreg] at h
          cases kind with
          | reg => exact hne (SfsUse.file.inj h)
          | _ => cases h
        · rw [indexAnswer_of_not_reg hreg] at h
          cases kind with
          | reg => cases h
          | _ => exact hne' (SfsUse.folder.inj h)

end

/-! ## 例 -/

def SfsServiceCtx.index : SfsServiceCtx where
  flags := sfsFlagsSendIndexHtml
  localPathHead := SfsServiceCtx.download.localPathHead
  ne_nil := SfsServiceCtx.download.ne_nil
  short := SfsServiceCtx.download.short

/-- `/srv/d` は directory で、その中に `index.html` がある。 -/
def SfsIo.folder : SfsIo where
  mallocOk := true
  fresh _ := 0
  lstat _ path :=
    if path = [47, 115, 114, 118, 47, 100] then some .dir
    else if path = [47, 115, 114, 118, 47, 100, 47] ++ indexName then some .reg
    else none
  sfsFile _ := 0
  sfsFolder _ := 0

/-- `/srv/` は directory で、その中に `index.html` がある。 -/
def SfsIo.root : SfsIo where
  mallocOk := true
  fresh _ := 0
  lstat _ path :=
    if path = [47, 115, 114, 118, 47] then some .dir
    else if path = [47, 115, 114, 118, 47] ++ indexName then some .reg
    else none
  sfsFile _ := 0
  sfsFolder _ := 0

theorem namesFolder_folder : NamesFolder .folder .index 3 [47, 102, 47, 100] [100] where
  matched := by decide
  decoded := ⟨[0], by decide +kernel⟩
  safe := by decide +kernel
  dir _ := rfl

theorem namesFolder_root : NamesFolder .root .index 3 [47, 102, 47] [] where
  matched := by decide
  decoded := ⟨[0], by decide +kernel⟩
  safe := by decide +kernel
  dir _ := rfl

/-- `/f/` を求められて、`/srv/index.html` を送る。 -/
theorem index_page_iff_root :
    NamesFolder .root .index 3 [47, 102, 47] [] ∧
      (sfsHandler .root .index 3 [47, 102, 47] (some [71, 69, 84])).2.getLast?
        = some (.file ([47, 115, 114, 118, 47] ++ indexName)) :=
  ⟨namesFolder_root, (index_page_iff (by decide) rfl namesFolder_root).mpr fun _ h =>
    (Option.some.inj h).symm⟩

/-- `/f/d` を求められても、`/srv/d/index.html` を送らず、`/srv/d` を見せる。 -/
theorem index_page_missed :
    ¬∀ (io : SfsIo) (ctx : SfsServiceCtx) (matchedLength : Nat) (path rel method : List UInt8),
      sfsFlagsSendIndexHtml &&& ctx.flags ≠ 0 → io.mallocOk = true →
      NamesFolder io ctx matchedLength path rel →
      (sfsHandler io ctx matchedLength path (some method)).2.getLast?
        = some (indexAnswer io (sfsFolderPath ctx rel)) := by
  intro hall
  have hrun := hall .folder .index 3 [47, 102, 47, 100] [100] [71, 69, 84] (by decide) rfl
    namesFolder_folder
  have hlisted : (sfsHandler .folder .index 3 [47, 102, 47, 100] (some [71, 69, 84])).2.getLast?
      = some (.folder [47, 115, 114, 118, 47, 100]) := rfl
  have hanswer : indexAnswer .folder (sfsFolderPath .index [100])
      = .file ([47, 115, 114, 118, 47, 100, 47] ++ indexName) := rfl
  rw [hlisted, hanswer] at hrun
  cases hrun

end Esq
