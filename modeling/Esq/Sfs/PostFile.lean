import Esq.Libs.FindLastSlash
import Esq.Sfs.Handler

/-!
# 受けとった file を開く

`modules/simple-file-service/post-parser.c` の `sfs_open_post_file`。

`:path` の残りを `local_path_head` に続け、その後ろに file 名を写して、開く。安全な経路かを見るのは
写した file 名だけである。余分な `/` は、`local_path_head` も含めた経路の全体から除く。
-/

namespace Esq

open Infra

structure SfsPostIo where
  mallocOk : Bool
  /-- `malloc` した領域に残っている byte -/
  fresh : Nat → UInt8
  /-- `open`。失敗は -1 である -/
  openFile : List UInt8 → Int

def postBasename (buf : List UInt8) : List UInt8 :=
  let r := findLastSlash2 buf
  if r = -1 then buf else buf.drop (r + 1).toNat

/-- `malloc` した `full_path` に経路を書く。`len` は file 名の長さである。 -/
def sfsPostPath (io : SfsPostIo) (ctx : SfsServiceCtx) (localPath basename : List UInt8)
    (len : Nat) :
    List UInt8 :=
  let headLen := ctx.localPathHead.bytes.length
  let fullPathLen := headLen + localPath.length + len + 1
  let fullPath := (List.range (fullPathLen + 1)).map io.fresh
  let fullPath := splice fullPath 0 ctx.localPathHead.bytes
  let fullPath := splice fullPath headLen localPath
  let fullPath := fullPath.set (headLen + localPath.length) 47
  let fullPath := splice fullPath (headLen + localPath.length + 1) basename
  fullPath.set fullPathLen 0

/-- `sfs_open_post_file`。開いた file の経路と `post_fd` を返す。`buf` は file 名である。 -/
def sfsOpenPostFile (io : SfsPostIo) (ctx : SfsServiceCtx) (matchedLength : Nat)
    (path buf : List UInt8) : Int × Option (List UInt8 × Int) :=
  if buf.length = 0 then (0, none)
  else if !io.mallocOk then (-1, none)
  else
    let localPath := path.drop matchedLength
    let fullPath := sfsPostPath io ctx localPath (postBasename buf) buf.length
    if !pathIsVerySafe (fullPath.drop (ctx.localPathHead.bytes.length + localPath.length + 1)) then
      (-1, none)
    else
      let name := cstring (removeRedundancySlash fullPath).2
      let fd := io.openFile name
      if fd = -1 then (-1, none) else (0, some (name, fd))

/-! ## 開く経路 -/

/-- `path` は、`head` の部分に、`.` でも `..` でもない部分を続けたものである。 -/
def Under (head path : List UInt8) : Prop :=
  (∃ cs, components (· == 47) path = components (· == 47) head ++ cs ∧
    ∀ c ∈ cs, c ≠ [46] ∧ c ≠ [46, 46]) ∧
  (path ≠ [] → (path.head? = some 47 ↔ head.head? = some 47))

structure UploadOk (head localPath : List UInt8) : Prop where
  /-- `local_path_head` に `\` は無い -/
  backslash : 92 ∉ head
  /-- `local_path_head` と `:path` の残りの間に `/` がある -/
  joint : (∀ c ∈ head.getLast?, isSlash c = true) ∨
    ∀ c ∈ (cstring localPath).head?, isSlash c = true
  dots : ∀ c ∈ components isSlash (cstring localPath), c ≠ [46] ∧ c ≠ [46, 46]

section

variable {h s t buf : List UInt8}

theorem postBasename_bound (buf : List UInt8) :
    (postBasename buf).length ≤ buf.length ∧ ∀ c ∈ postBasename buf, isSlash c = false := by
  unfold postBasename
  dsimp only
  rcases findLastSlash2_cases buf with ⟨hr, hb⟩ | ⟨u, c, w, rfl, hr, -, hw⟩
  · rw [if_pos hr]
    exact ⟨le_rfl, hb⟩
  · have hdrop : (u ++ c :: w).drop (findLastSlash2 (u ++ c :: w) + 1).toNat = w := by
      have hk : (findLastSlash2 (u ++ c :: w) + 1).toNat = (u ++ [c]).length := by
        rw [hr, List.length_append, List.length_singleton]
        omega
      rw [hk, List.append_cons u c w, List.drop_left]
    rw [if_neg (by omega), hdrop]
    refine ⟨?_, hw⟩
    rw [List.length_append, List.length_cons]
    omega

/--
**`full_path` は、頭と `:path` の残りと `/` と file 名の後ろに、残っていた byte を挟んで NUL が続いたものである。**
挟む長さは、file 名と、その後ろの部分との差である。
-/
theorem sfsPostPath_eq (io : SfsPostIo) (ctx : SfsServiceCtx) (localPath : List UInt8)
    {basename : List UInt8} {len : Nat} (hlen : basename.length ≤ len) :
    ∃ gap, sfsPostPath io ctx localPath basename len
        = ctx.localPathHead.bytes ++ (localPath ++ 47 :: (basename ++ (gap ++ [0]))) ∧
      gap.length = len - basename.length ∧ ∀ c ∈ gap, ∃ i, io.fresh i = c := by
  unfold sfsPostPath
  dsimp only
  generalize ctx.localPathHead.bytes = head
  have hfresh : ((List.range (head.length + localPath.length + len + 1 + 1)).map io.fresh).length
      = head.length + localPath.length + len + 1 + 1 := by
    rw [List.length_map, List.length_range]
  have hleft : ∀ c ∈ (List.range (head.length + localPath.length + len + 1 + 1)).map io.fresh,
      ∃ i, io.fresh i = c := by
    intro c hc
    obtain ⟨i, -, hi⟩ := List.mem_map.mp hc
    exact ⟨i, hi⟩
  revert hfresh hleft
  generalize (List.range (head.length + localPath.length + len + 1 + 1)).map io.fresh = buf
  intro hfresh hleft
  -- 前から順に写す
  have hhead : splice buf 0 head = head ++ buf.drop head.length := by
    simpa only [List.nil_append, List.length_nil] using splice_append [] buf head
  obtain ⟨y, ys, hys⟩ : ∃ y ys, (buf.drop head.length).drop localPath.length = y :: ys := by
    refine List.exists_cons_of_length_pos ?_
    rw [List.length_drop, List.length_drop]
    omega
  have hlocal : splice (splice buf 0 head) head.length localPath
    = head ++ (localPath ++ y :: ys) := by
    rw [hhead, splice_append, hys]
  have hysLen : ys.length = len + 1 := by
    have h := congrArg List.length hys
    rw [List.length_drop, List.length_drop, List.length_cons] at h
    omega
  have hysMem : ∀ c ∈ ys, c ∈ buf := fun c hc =>
    List.mem_of_mem_drop (List.mem_of_mem_drop (hys ▸ List.mem_cons_of_mem y hc))
  have hslash : (head ++ (localPath ++ y :: ys)).set (head.length + localPath.length) 47
      = (head ++ (localPath ++ [47])) ++ ys := by
    have h := set_append localPath (y :: ys) 0 47
    rw [Nat.add_zero, List.set_cons_zero] at h
    rw [set_append, h, List.append_assoc, List.append_assoc, List.singleton_append]
  have hbase : head.length + localPath.length + 1 = (head ++ (localPath ++ [47])).length := by
    rw [List.length_append, List.length_append, List.length_singleton, Nat.add_assoc]
  obtain ⟨k, hk⟩ : ∃ k, len = basename.length + k := ⟨len - basename.length, by omega⟩
  have hend : head.length + localPath.length + len + 1
      = (head ++ (localPath ++ [47])).length + (basename.length + k) := by
    omega
  -- base 名の後ろに残るのは、領域の byte と、最後の NUL である
  obtain ⟨gap, z, hgap⟩ : ∃ gap z, ys.drop basename.length = gap ++ [z] := by
    refine ⟨_, _, (List.dropLast_append_getLast (List.ne_nil_of_length_pos ?_)).symm⟩
    rw [List.length_drop]
    omega
  have hgapLen : gap.length = k := by
    have h := congrArg List.length hgap
    rw [List.length_drop, List.length_append, List.length_singleton] at h
    omega
  have hset : (gap ++ [z]).set k 0 = gap ++ [0] := by
    have h := set_append gap [z] 0 0
    rwa [Nat.add_zero, hgapLen, List.set_cons_zero] at h
  rw [hlocal, hslash, hbase, splice_append, hend, set_append, set_append, hgap, hset]
  refine ⟨gap, ?_, ?_, fun c hc => hleft c (hysMem c ?_)⟩
  · simp only [List.append_assoc, List.singleton_append]
  · rw [hgapLen, hk, Nat.add_sub_cancel_left]
  · exact List.mem_of_mem_drop (hgap ▸ List.mem_append_left [z] hc)

/-! ## 頭の外に出ない条件 -/

theorem joint_of_under {cs : List (List UInt8)}
    (h : components isSlash (s ++ t) = components isSlash s ++ cs) :
    (∀ c ∈ s.getLast?, isSlash c = true) ∨ ∀ c ∈ t.head?, isSlash c = true := by
  by_contra hno
  rw [not_or] at hno
  obtain ⟨hlast, hfirst⟩ := hno
  push Not at hlast hfirst
  obtain ⟨c, hc, hcfalse⟩ := hlast
  obtain ⟨d, hd, hdfalse⟩ := hfirst
  exact components_append_ne ⟨c, hc, by simpa using hcfalse⟩ ⟨d, hd, by simpa using hdfalse⟩ cs h

theorem components_of_no_backslash (hs : 92 ∉ s) : components isSlash s
    = components (· == 47) s := by
  refine components_congr fun x hx => ?_
  have hne : x ≠ 92 := fun he => hs (he ▸ hx)
  simp [isSlash, hne]

theorem head_squeeze_iff (hs : s ≠ []) (hback : 92 ∉ s)
    (hne : squeeze isSlash 47 false (s ++ t) ≠ []) :
    (squeeze isSlash 47 false (s ++ t)).head? = some 47 ↔ s.head? = some 47 := by
  obtain ⟨c, s, rfl⟩ := List.exists_cons_of_ne_nil hs
  rw [List.cons_append] at hne ⊢
  by_cases hc : c = 47
  · have hslash : isSlash c = true := by rw [hc]; rfl
    rw [squeeze, if_pos hslash] at hne ⊢
    rw [hc]
    exact iff_of_true ((head_squeeze_true _ _ _).resolve_left hne) rfl
  · have hne92 : c ≠ 92 := fun he => hback (by rw [he]; exact List.mem_cons_self)
    have hslash : isSlash c = false := by simp [isSlash, hc, hne92]
    rw [head_squeeze fun d hd => ?_]
    · rfl
    · obtain rfl : c = d := Option.some.inj hd
      exact hslash

theorem no_backslash_squeeze (s : List UInt8) : 92 ∉ squeeze isSlash 47 false s := by
  intro h
  rcases mem_squeeze h with he | ⟨-, hfalse⟩
  · exact absurd he (by decide)
  · exact absurd hfalse (by decide)

theorem under_squeeze_iff {r b : List UInt8} (hh : h ≠ [])
    (ht : t = cstring r ∨ t = cstring r ++ 47 :: b) (hb : NoHidden b) :
    Under h (squeeze isSlash 47 false (h ++ t)) ↔ UploadOk h r := by
  have hparts : components (· == 47) (squeeze isSlash 47 false (h ++ t))
    = components isSlash (h ++ t) :=
    components_squeeze rfl _ _
  have hfirst : ∀ c, t.head? = some c → isSlash c = true ∨ (cstring r).head? = some c := by
    intro c hc
    rcases ht with rfl | rfl
    · exact Or.inr hc
    · cases hr : cstring r with
      | nil =>
        rw [hr] at hc
        obtain rfl : 47 = c := Option.some.inj hc
        exact Or.inl rfl
      | cons d r' =>
        rw [hr] at hc
        exact Or.inr hc
  have hfirst' : ∀ c, (cstring r).head? = some c → t.head? = some c := by
    intro c hc
    rcases ht with rfl | rfl
    · exact hc
    · rw [List.head?_append, hc]
      rfl
  -- `t` の部分は、`:path` の残りの部分と、隠れない部分である
  have hdots : (∀ c ∈ components isSlash t, c ≠ [46] ∧ c ≠ [46, 46]) ↔
      ∀ c ∈ components isSlash (cstring r), c ≠ [46] ∧ c ≠ [46, 46] := by
    rcases ht with rfl | rfl
    · exact Iff.rfl
    · rw [components_append_cons _ _ (by decide)]
      refine ⟨fun hall c hc => hall c (List.mem_append_left _ hc), fun hall c hc => ?_⟩
      rcases List.mem_append.mp hc with hc | hc
      · exact hall c hc
      · have hdot := hb c hc
        refine ⟨fun he => hdot ?_, fun he => hdot ?_⟩
        · rw [he]
          rfl
        · rw [he]
          rfl
  constructor
  · rintro ⟨⟨cs, hcs, hcsdots⟩, -⟩
    rw [hparts] at hcs
    have hback : 92 ∉ h := by
      intro hm
      obtain ⟨y, hy, hmem⟩ := exists_mem_components (p := (· == 47)) (by decide) hm
      have hpath : y ∈ components (· == 47) (squeeze isSlash 47 false (h ++ t)) := by
        rw [hparts, hcs]
        exact List.mem_append_left _ hy
      exact no_backslash_squeeze _ ((mem_components hpath).2 92 hmem).2
    rw [← components_of_no_backslash hback] at hcs
    have hjoint := joint_of_under hcs
    refine ⟨hback, hjoint.imp_right fun hall c hc => hall c (hfirst' c hc), ?_⟩
    rw [components_append hjoint] at hcs
    rw [← hdots, List.append_cancel_left hcs]
    exact hcsdots
  · rintro ⟨hback, hjoint, hlocal⟩
    refine ⟨⟨components isSlash t, ?_, hdots.mpr hlocal⟩, head_squeeze_iff hh hback⟩
    rw [hparts, ← components_of_no_backslash hback]
    refine components_append (hjoint.imp_right fun hall c hc => ?_)
    exact (hfirst c hc).elim id fun hc => hall c hc

end

theorem drop_pathName {α : Type*} (head path name : List α) (sep : α) :
    (head ++ (path ++ sep :: name)).drop (head.length + path.length + 1) = name := by
  rw [Nat.add_assoc, List.drop_length_add_append, List.drop_length_add_append,
    List.drop_succ_cons, List.drop_zero]

theorem sfsOpenPostFile_path {io : SfsPostIo} {ctx : SfsServiceCtx} {matchedLength : Nat}
    {path buf p : List UInt8} {fd : Int}
    (h : (sfsOpenPostFile io ctx matchedLength path buf).2 = some (p, fd)) :
    ∃ t b, p = squeeze isSlash 47 false (ctx.localPathHead.bytes ++ t) ∧ NoHidden b ∧
      (t = cstring (path.drop matchedLength) ∨ t = cstring (path.drop matchedLength) ++ 47 :: b) :=
        by
  obtain ⟨gap, hfull, -⟩ := sfsPostPath_eq io ctx (path.drop matchedLength)
    (postBasename_bound buf).1
  unfold sfsOpenPostFile at h
  dsimp only at h
  rw [hfull] at h
  split at h
  · cases h
  split at h
  · cases h
  split at h
  · cases h
  next hsafe =>
  split at h
  · cases h
  obtain ⟨rfl, -⟩ := Prod.mk.inj (Option.some.inj h)
  -- 見るのは、写した file 名より後ろである
  rw [drop_pathName] at hsafe
  have hsafe : pathIsVerySafe (postBasename buf ++ (gap ++ [0])) = true := by simpa using hsafe
  obtain ⟨-, hhidden⟩ := noHidden_of_safe hsafe
  have hhead : 0 ∉ ctx.localPathHead.bytes := ctx.localPathHead.property
  rw [cstring_removeRedundancySlash (by simp), cstring_append hhead]
  refine ⟨_, cstring (postBasename buf ++ (gap ++ [0])), rfl, hhidden, ?_⟩
  have hcases := cstring_append_cases (path.drop matchedLength)
    (47 :: (postBasename buf ++ (gap ++ [0])))
  rwa [cstring_cons (by decide)] at hcases

/--
**開いた file が `local_path_head` の中にあるのは、`local_path_head` に `\` が無く、`:path` の残りとの間に
`/` があり、`:path` の残りに `.` や `..` の部分が無いとき、そのときに限る。**
-/
theorem upload_confined_iff {io : SfsPostIo} {ctx : SfsServiceCtx} {matchedLength : Nat}
    {path buf p : List UInt8} {fd : Int}
    (h : (sfsOpenPostFile io ctx matchedLength path buf).2 = some (p, fd)) :
    Under ctx.localPathHead.bytes p ↔
      UploadOk ctx.localPathHead.bytes (path.drop matchedLength) := by
  obtain ⟨t, b, rfl, hb, ht⟩ := sfsOpenPostFile_path h
  exact under_squeeze_iff ctx.ne_nil ht hb

def SfsServiceCtx.sample : SfsServiceCtx where
  flags := 1
  localPathHead := SfsServiceCtx.download.localPathHead
  ne_nil := SfsServiceCtx.download.ne_nil
  short := SfsServiceCtx.download.short

def SfsPostIo.sample : SfsPostIo where
  mallocOk := true
  fresh := fun _ => 0
  openFile := fun _ => 3

/-- `:path` が `/x` で file 名が `a` なら、開くのは `/srv/x/a` である。 -/
theorem upload_confined_iff_sample :
    (sfsOpenPostFile .sample .sample 1 [47, 120] [97]).2
        = some ([47, 115, 114, 118, 47, 120, 47, 97], 3) ∧
      (Under SfsServiceCtx.sample.localPathHead.bytes [47, 115, 114, 118, 47, 120, 47, 97] ↔
        UploadOk SfsServiceCtx.sample.localPathHead.bytes [120]) := by
  have hopen : (sfsOpenPostFile .sample .sample 1 [47, 120] [97]).2
      = some ([47, 115, 114, 118, 47, 120, 47, 97], 3) := by
    decide +kernel
  exact ⟨hopen, upload_confined_iff hopen⟩

/-- `:path` が `/..` で file 名が `a` なら、開くのは `/srv/../a` である。 -/
theorem upload_leaves_folder :
    ¬∀ (io : SfsPostIo) (ctx : SfsServiceCtx) (matchedLength : Nat) (path buf p : List UInt8)
      (fd : Int),
      (sfsOpenPostFile io ctx matchedLength path buf).2 = some (p, fd) →
        Under ctx.localPathHead.bytes p := by
  intro hall
  have hopen : (sfsOpenPostFile .sample .sample 1 [47, 46, 46] [97]).2
      = some ([47, 115, 114, 118, 47, 46, 46, 47, 97], 3) := by
    decide +kernel
  obtain ⟨⟨cs, hcs, hdots⟩, -⟩ := hall .sample .sample 1 [47, 46, 46] [97] _ 3 hopen
  have hparts : components (· == 47) [47, 115, 114, 118, 47, 46, 46, 47, 97]
      = components (· == 47) SfsServiceCtx.sample.localPathHead.bytes ++ [[46, 46], [97]] := by
    decide +kernel
  rw [hparts] at hcs
  rw [← List.append_cancel_left hcs] at hdots
  exact (hdots [46, 46] List.mem_cons_self).2 rfl

end Esq
