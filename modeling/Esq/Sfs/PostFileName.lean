import Esq.Libs.PathGrammar
import Esq.Sfs.PostFile

/-!
# 受けとった file の名前

`modules/simple-file-service/post-parser.c` の `sfs_open_post_file` は、`full_path` の終わりの NUL を、`/` より後ろ
（base 名）ではなく file 名の全体の長さで決めた所に置く。file 名に `/` があると、base 名と NUL の間には `malloc` した
領域に残っていた byte があり、それも経路になる。
-/

namespace Esq

open Infra

section

variable {path buf : List UInt8}

/-! ## 開く経路 -/

/-- 頭と `:path` の残り、`/` と base 名を続けて、まとめた経路。 -/
def uploadTarget (ctx : SfsServiceCtx) (localPath buf : List UInt8) : List UInt8 :=
  cstring (removeRedundancySlash
    (ctx.localPathHead.bytes ++ (localPath ++ 47 :: (postBasename buf ++ [0])))).2

/--
領域に何が残っていても、`uploadTarget` を開き、ほかの経路は開かない。空の file 名は、file を選ばなかったことを
表すので、開かない。
-/
def OpensTarget (ctx : SfsServiceCtx) (matchedLength : Nat) (path buf : List UInt8) : Prop :=
  ∀ io : SfsPostIo, io.mallocOk = true →
    let target := uploadTarget ctx (path.drop matchedLength) buf
    sfsOpenPostFile io ctx matchedLength path buf =
      if buf.length = 0 then (0, none)
      else if io.openFile target = -1 then (-1, none)
      else (0, some (target, io.openFile target))

theorem sfsOpenPostFile_eq {io : SfsPostIo} (ctx : SfsServiceCtx) (matchedLength : Nat)
    (path : List UInt8) {buf : List UInt8} (hmalloc : io.mallocOk = true) (hbuf : buf.length ≠ 0) :
    ∃ gap, gap.length = buf.length - (postBasename buf).length ∧ (∀ c ∈ gap, ∃ i, io.fresh i = c) ∧
      sfsOpenPostFile io ctx matchedLength path buf =
        let name := cstring (removeRedundancySlash (ctx.localPathHead.bytes ++
          (path.drop matchedLength ++ 47 :: (postBasename buf ++ (gap ++ [0]))))).2
        if !pathIsVerySafe (postBasename buf ++ (gap ++ [0])) then (-1, none)
        else if io.openFile name = -1 then (-1, none) else (0, some (name, io.openFile name)) := by
  obtain ⟨gap, hfull, hlen, hleft⟩ := sfsPostPath_eq io ctx (path.drop matchedLength)
    (postBasename_bound buf).1
  refine ⟨gap, hlen, hleft, ?_⟩
  unfold sfsOpenPostFile
  dsimp only
  -- 調べるのは、写した base 名からである
  rw [if_neg hbuf, hmalloc, hfull, drop_pathName]
  rfl

theorem uploadTarget_of_nul {ctx : SfsServiceCtx} {localPath buf : List UInt8} (gap : List UInt8)
    (hzero : 0 ∈ postBasename buf) :
    cstring (removeRedundancySlash (ctx.localPathHead.bytes ++
      (localPath ++ 47 :: (postBasename buf ++ (gap ++ [0]))))).2
        = uploadTarget ctx localPath buf := by
  obtain ⟨u, v, huv⟩ := List.append_of_mem hzero
  unfold uploadTarget
  rw [cstring_removeRedundancySlash (by simp), cstring_removeRedundancySlash (by simp), huv]
  have hcut : ∀ w, cstring (ctx.localPathHead.bytes ++ (localPath ++ 47 :: ((u ++ 0 :: v) ++ w)))
      = cstring (ctx.localPathHead.bytes ++ (localPath ++ 47 :: u)) := by
    intro w
    rw [show ctx.localPathHead.bytes ++ (localPath ++ 47 :: ((u ++ 0 :: v) ++ w))
      = (ctx.localPathHead.bytes ++ (localPath ++ 47 :: u)) ++ 0 :: (v ++ w) by
        simp only [List.append_assoc, List.cons_append]]
    exact cstring_append_zero' _ _
  rw [hcut, hcut]

theorem postBasename_length_lt (hslash : ¬∀ c ∈ buf, isSlash c = false) :
    (postBasename buf).length < buf.length := by
  unfold postBasename
  dsimp only
  rcases findLastSlash2_cases buf with ⟨-, hb⟩ | ⟨u, c, w, rfl, hr, -, -⟩
  · exact absurd hb hslash
  · rw [if_neg (by omega), hr, List.length_drop, List.length_append, List.length_cons]
    omega

theorem postBasename_of_no_slash (hslash : ∀ c ∈ buf, isSlash c = false) : postBasename buf
    = buf := by
  unfold postBasename
  dsimp only
  rcases findLastSlash2_cases buf with ⟨hr, -⟩ | ⟨u, c, w, rfl, -, hc, -⟩
  · rw [if_pos hr]
  · rw [hslash c (List.mem_append_right u List.mem_cons_self)] at hc
    cases hc

/-- `malloc` した領域の byte がどれも `b` で、`open` は 3 を返す。 -/
def SfsPostIo.filled (b : UInt8) : SfsPostIo where
  mallocOk := true
  fresh := fun _ => b
  openFile := fun _ => 3

/--
**base 名が安全なら、領域に何が残っていても決まった経路を開くのは、file 名に `/` も `\` も無いか、base 名の中に
NUL があるとき、そのときに限る。**
-/
theorem upload_target_iff {ctx : SfsServiceCtx} {matchedLength : Nat} {path buf : List UInt8}
    (hsafe : pathIsVerySafe (postBasename buf ++ [0]) = true) :
    OpensTarget ctx matchedLength path buf ↔
      (∀ c ∈ buf, isSlash c = false) ∨ 0 ∈ postBasename buf := by
  constructor
  · intro hopen
    by_contra hno
    obtain ⟨hslash, hzero⟩ := not_or.mp hno
    have hlt := postBasename_length_lt hslash
    have hbuf : buf.length ≠ 0 := by omega
    -- 残っていた byte が control 文字なら、開かない
    have hmalloc : (SfsPostIo.filled 1).mallocOk = true := rfl
    obtain ⟨gap, hlen, hleft, heq⟩ := sfsOpenPostFile_eq ctx matchedLength path hmalloc hbuf
    obtain ⟨c, gap', rfl⟩ : ∃ c gap', gap = c :: gap' := by
      refine List.exists_cons_of_length_pos ?_
      omega
    obtain ⟨i, rfl⟩ := hleft c List.mem_cons_self
    have hone : (1 : UInt8) ≠ 0 := by decide
    have hthree : (3 : Int) ≠ -1 := by decide
    have hbad : pathIsVerySafe (postBasename buf ++ (SfsPostIo.filled 1).fresh i :: (gap' ++ [0]))
      = false := by
      by_contra hgood
      refine one_notMem_of_safe (by simpa using hgood) ?_
      rw [cstring_append hzero]
      change 1 ∈ postBasename buf ++ cstring (1 :: (gap' ++ [0]))
      rw [cstring_cons hone]
      exact List.mem_append_right _ List.mem_cons_self
    have hrun := hopen (.filled 1) rfl
    dsimp only at hrun heq
    rw [heq, if_neg hbuf, List.cons_append, hbad] at hrun
    have hfd : ∀ p, (SfsPostIo.filled 1).openFile p ≠ -1 := fun _ => hthree
    rw [if_neg (hfd _)] at hrun
    cases hrun
  · intro hcond io hmalloc
    by_cases hbuf : buf.length = 0
    · dsimp only
      unfold sfsOpenPostFile
      rw [if_pos hbuf, if_pos hbuf]
    obtain ⟨gap, hlen, -, heq⟩ := sfsOpenPostFile_eq ctx matchedLength path hmalloc hbuf
    dsimp only at heq ⊢
    rw [if_neg hbuf, heq]
    rcases hcond with hslash | hzero
    · -- 挟まる byte が無い
      have hgap : gap = [] := by
        rw [postBasename_of_no_slash hslash, Nat.sub_self] at hlen
        exact List.length_eq_zero_iff.mp hlen
      rw [hgap, List.nil_append, hsafe]
      rfl
    · -- 挟まる byte は、base 名の NUL より後ろにある
      have hgood : pathIsVerySafe (postBasename buf ++ (gap ++ [0])) = true := by
        obtain ⟨u, v, huv⟩ := List.append_of_mem hzero
        rw [huv, List.append_assoc, List.cons_append, pathIsVerySafe_nul] at hsafe ⊢
        exact hsafe
      rw [hgood, uploadTarget_of_nul gap hzero]
      rfl

/-- file 名が `a` なら、領域に何が残っていても `/srv/x/a` を開く。 -/
theorem upload_target_iff_sample :
    pathIsVerySafe (postBasename [97] ++ [0]) = true ∧ OpensTarget .sample 1 [47, 120] [97] := by
  have hsafe : pathIsVerySafe (postBasename [97] ++ [0]) = true := by decide +kernel
  refine ⟨hsafe, (upload_target_iff hsafe).mpr (Or.inl ?_)⟩
  exact List.forall_mem_singleton.mpr (by decide)

/-- file 名が `d/a` で、領域に `b` が残っていれば、`/srv/x/a` ではなく `/srv/x/abb` を開く。 -/
theorem upload_opens_left_bytes :
    ¬∀ (ctx : SfsServiceCtx) (matchedLength : Nat) (path buf : List UInt8),
      pathIsVerySafe (postBasename buf ++ [0]) = true → OpensTarget ctx matchedLength path buf := by
  intro hall
  have hrun := hall .sample 1 [47, 120] [100, 47, 97] (by decide +kernel) (.filled 98) rfl
  have hopened : sfsOpenPostFile (.filled 98) .sample 1 [47, 120] [100, 47, 97]
      = (0, some ([47, 115, 114, 118, 47, 120, 47, 97, 98, 98], 3)) := by
    decide +kernel
  have htarget : uploadTarget .sample ([47, 120].drop 1) [100, 47, 97]
      = [47, 115, 114, 118, 47, 120, 47, 97] := by
    decide +kernel
  dsimp only at hrun
  rw [hopened, htarget] at hrun
  revert hrun
  decide

end

end Esq
