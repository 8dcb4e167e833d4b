import Esq.Basic
import Esq.Libs.Sscanf

/-!
# folder の列挙

`libs/file-enumerators/file-enumerators.c`。

folder の木は、`readdir` が返す順の entry の列である。entry には、その経路の `opendir` と `stat` の
結果をつける。隠れた entry は読み飛ばし、経路が 1024 byte に達するものも読み飛ばす。
`opendir` が `ENOTDIR` でない失敗をすると、その folder の残りは読まれない（`FsEntries.Unblocked`）。
-/

namespace Esq

def esqFilePathMax : Nat := 1024

/-! ## folder の木 -/

/-- `d_name`。空でなく、NUL も `/` も含まない。 -/
structure FileName where
  bytes : List UInt8
  ne_nil : bytes ≠ []
  no_nul : 0 ∉ bytes
  no_slash : 47 ∉ bytes

def FileName.hidden (name : FileName) : Bool := name.bytes.head? == some 46

mutual

inductive FsNode where
  | folder (entries : FsEntries)
  /-- `ENOTDIR` で、`S_IFREG` である -/
  | file
  /-- `ENOTDIR` で、`stat` が失敗するか、`S_IFREG` でない -/
  | special
  /-- `ENOENT` -/
  | absent
  /-- ほかの `errno` -/
  | denied

inductive FsEntries where
  | nil
  | cons (name : FileName) (node : FsNode) (rest : FsEntries)

end

/-! ## 列挙 -/

section

variable {σ : Type*} (cb : List UInt8 → σ → Int × σ)

def folderPath (path : List UInt8) : Option (List UInt8) :=
  if path.getLast? = some 47 then some path
  else if path.length + 1 < esqFilePathMax then some (path ++ [47])
  else none

mutual

/-- `esq_enum_path`。`cb` の戻り値は見ない。 -/
def esqEnumPath (path : List UInt8) : FsNode → σ → Int × σ
  | .folder entries, s =>
    match folderPath path with
    | none => (0, s)
    | some path => (0, esqEnumEntries path entries s)
  | .file, s => (0, (cb path s).2)
  | .special, s => (0, s)
  | .absent, s => (esqErrorNotfound, s)
  | .denied, s => (esqErrorParam, s)

/-- `esq_enum_path` の loop。失敗した entry の後は読まない。 -/
def esqEnumEntries (path : List UInt8) : FsEntries → σ → σ
  | .nil, s => s
  | .cons name node rest, s =>
    if name.hidden then esqEnumEntries path rest s
    else if name.bytes.length ≥ esqFilePathMax then esqEnumEntries path rest s
    else if path.length + name.bytes.length ≥ esqFilePathMax then esqEnumEntries path rest s
    else
      let (r, s) := esqEnumPath (path ++ name.bytes) node s
      if r ≠ 0 then s else esqEnumEntries path rest s

end

def esqFileEnumerators (root : List UInt8) (node : FsNode) (s : σ) : Int × σ :=
  let path := root.takeWhile (· ≠ 0)
  if path.length = 0 ∨ path.length ≥ esqFilePathMax then (esqErrorParam, s)
  else esqEnumPath cb path node s

end

/-! ## 列挙される名前 -/

/-- 隠れていない folder を通って着く、隠れていない file の名前。 -/
def FsEntries.files : FsEntries → List (List UInt8)
  | .nil => []
  | .cons name node rest =>
    if name.hidden then rest.files
    else match node with
      | .file => name.bytes :: rest.files
      | .folder entries => entries.files.map (name.bytes ++ 47 :: ·) ++ rest.files
      | _ => rest.files

/-- 経路が 1024 byte に達しない名前。`len` は folder の経路の長さである。 -/
def FsEntries.within (len : Nat) (entries : FsEntries) : List (List UInt8) :=
  entries.files.filter (len + ·.length < esqFilePathMax)

/--
`opendir` が `ENOTDIR` でない失敗をする entry の後に、同じ folder から着く file が無い。
-/
def FsEntries.Unblocked (len : Nat) : FsEntries → Prop
  | .nil => True
  | .cons name node rest =>
    if name.hidden ∨ len + name.bytes.length ≥ esqFilePathMax then rest.Unblocked len
    else match node with
      | .folder entries => entries.Unblocked (len + name.bytes.length + 1) ∧ rest.Unblocked len
      | .file => rest.Unblocked len
      | .special => rest.Unblocked len
      | .absent => rest.within len = []
      | .denied => rest.within len = []

section

variable {len : Nat}

theorem FsEntries.within_map (entries : FsEntries) (pre : List UInt8) :
    ((entries.files.map (pre ++ 47 :: ·)).filter (len + ·.length < esqFilePathMax))
      = (entries.within (len + pre.length + 1)).map (pre ++ 47 :: ·) := by
  unfold FsEntries.within
  rw [List.filter_map]
  congr 1
  refine List.filter_congr fun n _ => ?_
  simp only [Function.comp_apply, List.length_append, List.length_cons, decide_eq_decide]
  omega

theorem FsEntries.files_ne_nil : ∀ (entries : FsEntries), [] ∉ entries.files
  | .nil => List.not_mem_nil
  | .cons name node rest => by
    have ih := rest.files_ne_nil
    unfold FsEntries.files
    split
    · exact ih
    · split
      · simp only [List.mem_cons, not_or]
        exact ⟨name.ne_nil.symm, ih⟩
      · simp only [List.mem_append, List.mem_map, not_or]
        refine ⟨?_, ih⟩
        rintro ⟨n, -, hn⟩
        simp at hn
      · exact ih

theorem FsEntries.within_eq_nil (entries : FsEntries) (hlen : esqFilePathMax ≤ len + 1) :
    entries.within len = [] := by
  refine List.filter_eq_nil_iff.mpr fun n hn => ?_
  have hne : n ≠ [] := fun he => entries.files_ne_nil (he ▸ hn)
  have hpos := List.length_pos_iff.mpr hne
  rw [decide_eq_true_iff]
  omega

theorem FsEntries.files_cons {name : FileName} (hshow : ¬ name.hidden) (node : FsNode)
    (rest : FsEntries) : (cons name node rest).files = (match node with
      | .file => [name.bytes]
      | .folder entries => entries.files.map (name.bytes ++ 47 :: ·)
      | _ => []) ++ rest.files := by
  cases node <;> simp only [files, if_neg hshow] <;> rfl

theorem FsEntries.within_cons_skip {name : FileName} (node : FsNode) (rest : FsEntries)
    (h : name.hidden ∨ len + name.bytes.length ≥ esqFilePathMax) :
    (cons name node rest).within len = rest.within len := by
  unfold within
  by_cases hhidden : name.hidden
  · cases node <;> simp only [files, if_pos hhidden]
  · have hlong := h.resolve_left hhidden
    rw [files_cons hhidden, List.filter_append]
    cases node with
    | file =>
      dsimp only
      rw [List.filter_cons_of_neg (by simpa using hlong)]
      rfl
    | folder entries =>
      dsimp only
      rw [entries.within_map, entries.within_eq_nil (by omega)]
      rfl
    | special => rfl
    | absent => rfl
    | denied => rfl

theorem FsEntries.within_cons {name : FileName} (node : FsNode) (rest : FsEntries)
    (h : ¬ (name.hidden ∨ len + name.bytes.length ≥ esqFilePathMax)) :
    (cons name node rest).within len = (match node with
      | .file => [name.bytes]
      | .folder entries =>
        (entries.within (len + name.bytes.length + 1)).map (name.bytes ++ 47 :: ·)
      | _ => []) ++ rest.within len := by
  obtain ⟨hshow, hshort⟩ := not_or.mp h
  unfold within
  rw [files_cons hshow, List.filter_append]
  congr 1
  cases node with
  | file =>
    dsimp only
    rw [List.filter_cons_of_pos (by simpa using hshort)]
    rfl
  | folder entries => exact entries.within_map name.bytes
  | special => rfl
  | absent => rfl
  | denied => rfl

/-! ## 列挙の結果 -/

theorem folderPath_name {path : List UInt8} {name : FileName} :
    folderPath (path ++ name.bytes) = if path.length + name.bytes.length + 1 < esqFilePathMax then
      some (path ++ name.bytes ++ [47]) else none := by
  unfold folderPath
  rw [if_neg, List.length_append]
  intro hlast
  rw [List.getLast?_append_of_ne_nil _ name.ne_nil] at hlast
  exact name.no_slash (List.mem_of_getLast? hlast)

/--
**folder の経路からは、1024 byte に達しないどの file も、列の順に一度ずつ `cb` に渡る。**

読まれない entry がある folder では、そこから着く file が無いとする。
-/
theorem esqEnumEntries_eq : ∀ (entries : FsEntries) {path : List UInt8} (s : σ),
    entries.Unblocked path.length →
    esqEnumEntries cb path entries s
      = (entries.within path.length).foldl (fun s n => (cb (path ++ n) s).2) s
  | .nil, path, s, _ => rfl
  | .cons name node rest, path, s, h => by
    by_cases hskip : name.hidden ∨ path.length + name.bytes.length ≥ esqFilePathMax
    · unfold FsEntries.Unblocked at h
      rw [if_pos hskip] at h
      rw [FsEntries.within_cons_skip node rest hskip, ← esqEnumEntries_eq rest s h]
      rw [esqEnumEntries]
      rcases hskip with hhidden | hlong
      · rw [if_pos hhidden]
      · simp only [hlong, if_true, ite_self]
    · unfold FsEntries.Unblocked at h
      rw [if_neg hskip] at h
      rw [FsEntries.within_cons node rest hskip, List.foldl_append]
      obtain ⟨hshow, hshort⟩ := not_or.mp hskip
      rw [esqEnumEntries, if_neg hshow, if_neg (by omega), if_neg hshort]
      cases node with
      | file => exact esqEnumEntries_eq rest _ h
      | special => exact esqEnumEntries_eq rest _ h
      | absent =>
        -- 失敗の後は読まないが、その先に file は無い
        have h : rest.within path.length = [] := h
        rw [h]
        rfl
      | denied =>
        have h : rest.within path.length = [] := h
        rw [h]
        rfl
      | folder entries =>
        obtain ⟨hsub, hrest⟩ := h
        have hlen : (path ++ name.bytes ++ [47]).length = path.length + name.bytes.length + 1 := by
          rw [List.length_append, List.length_append]
          rfl
        have hinner : (esqEnumPath cb (path ++ name.bytes) (.folder entries) s)
            = (0, ((entries.within (path.length + name.bytes.length + 1)).map
                (name.bytes ++ 47 :: ·)).foldl (fun s n => (cb (path ++ n) s).2) s) := by
          simp only [esqEnumPath, folderPath_name]
          by_cases hfit : path.length + name.bytes.length + 1 < esqFilePathMax
          · rw [if_pos hfit]
            dsimp only
            rw [← hlen] at hsub
            rw [esqEnumEntries_eq entries s hsub, hlen, List.foldl_map]
            simp only [List.append_assoc, List.cons_append, List.nil_append]
          · rw [if_neg hfit, entries.within_eq_nil (by omega)]
            rfl
        rw [hinner]
        exact esqEnumEntries_eq rest _ hrest

end

end Esq
