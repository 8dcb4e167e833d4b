import Esq.Libs.FileEnumeratorsWhole

/-!
# 列挙を止める

`libs/file-enumerators/file-enumerators.c` は、`cb` が 1 を返しても止まらない。`esq_enum_path` は
`cb` の戻り値を捨てて `ESQ_OK` を返すので、上の folder に届く値はない。

渡る file の列は、`cb` が何を返しても変わらない（`FsRoot.visited`）。
-/

namespace Esq

/-! ## 渡る file の列 -/

/-- 渡る file の名前。開けない entry の後は読まない。`len` は folder の経路の長さである。 -/
def FsEntries.visited (len : Nat) : FsEntries → List (List UInt8)
  | .nil => []
  | .cons name node rest =>
    if name.hidden ∨ len + name.bytes.length ≥ esqFilePathMax then rest.visited len
    else match node with
      | .folder entries =>
        (entries.visited (len + name.bytes.length + 1)).map (name.bytes ++ 47 :: ·) ++
          rest.visited len
      | .file => name.bytes :: rest.visited len
      | .special => rest.visited len
      | .absent => []
      | .denied => []

def FsRoot.visited (r : FsRoot) : List (List UInt8) :=
  match r.node with
  | .folder entries =>
    if r.bytes.length < esqFilePathMax then
      (entries.visited r.dir.length).map (r.dir ++ ·) else []
  | .file => if r.bytes.length < esqFilePathMax then [r.bytes] else []
  | _ => []

/-! ## `cb` の答え -/

section

variable {σ : Type*} (cb : List UInt8 → Nat → σ → Int × σ)

def logged (path : List UInt8) (length : Nat) (s : σ × List Int) : Int × σ × List Int :=
  let r := cb path length s.1
  (r.1, r.2, s.2 ++ [r.1])

/-- `esq_file_enumerators` の間の、`cb` の答え。 -/
def FsRoot.answers (r : FsRoot) (stack : Vector UInt8 (esqFilePathMax + 4)) (rest : List UInt8)
    (s : σ) : List Int :=
  (esqFileEnumeratorsBuf (logged cb) stack.toList (r.bytes ++ 0 :: rest) r.node (s, [])).2.2

def passAll (paths : List (List UInt8)) (s : σ) : σ :=
  paths.foldl (fun s p => (cb p p.length s).2) s

def answersTo : List (List UInt8) → σ → List Int
  | [], _ => []
  | p :: ps, s => (cb p p.length s).1 :: answersTo ps (cb p p.length s).2

end

def StopsOnRequest (answers : List Int) : Prop :=
  ∀ before after, answers = before ++ 1 :: after → after = []

section

variable {σ : Type*} {cb : List UInt8 → σ → Int × σ} {len : Nat} {path : List UInt8} {s : σ}

theorem FsEntries.visited_of_long (hlen : esqFilePathMax ≤ len + 1) :
    ∀ entries : FsEntries, entries.visited len = []
  | .nil => rfl
  | .cons name node rest => by
    have hname := List.length_pos_iff.mpr name.ne_nil
    unfold FsEntries.visited
    rw [if_pos (.inr (by omega))]
    exact visited_of_long hlen rest

/--
**folder の経路からは、読まれる entry の file が、`cb` の答えによらず順に渡る。**

file でない entry の戻り値だけが 0 でないことがあり、そのとき同じ folder の残りは読まれない。
-/
theorem esqEnumEntries_visited : ∀ (entries : FsEntries) {path : List UInt8} (s : σ),
    esqEnumEntries cb path entries s
      = (entries.visited path.length).foldl (fun s n => (cb (path ++ n) s).2) s
  | .nil, path, s => rfl
  | .cons name node rest, path, s => by
    rw [FsEntries.visited.eq_def]
    dsimp only
    by_cases hskip : name.hidden ∨ path.length + name.bytes.length ≥ esqFilePathMax
    · rw [if_pos hskip, ← esqEnumEntries_visited rest s, esqEnumEntries]
      rcases hskip with hhidden | hlong
      · rw [if_pos hhidden]
      · simp only [hlong, if_true, ite_self]
    · obtain ⟨hshow, hshort⟩ := not_or.mp hskip
      rw [if_neg hskip, esqEnumEntries, if_neg hshow, if_neg (by omega), if_neg hshort]
      cases node with
      | file => exact esqEnumEntries_visited rest _
      | special => exact esqEnumEntries_visited rest _
      | absent => rfl
      | denied => rfl
      | folder entries =>
        have hinner : esqEnumPath cb (path ++ name.bytes) (.folder entries) s
            = (0, ((entries.visited (path.length + name.bytes.length + 1)).map
                (name.bytes ++ 47 :: ·)).foldl (fun s n => (cb (path ++ n) s).2) s) := by
          have hlen : (path ++ name.bytes ++ [47]).length
              = path.length + name.bytes.length + 1 := by
            rw [List.length_append, List.length_append]
            rfl
          simp only [esqEnumPath, folderPath_name]
          by_cases hfit : path.length + name.bytes.length + 1 < esqFilePathMax
          · rw [if_pos hfit]
            dsimp only
            rw [esqEnumEntries_visited entries s, hlen, List.foldl_map]
            simp only [List.append_assoc, List.cons_append, List.nil_append]
          · rw [if_neg hfit, FsEntries.visited_of_long (by omega)]
            rfl
        rw [hinner, List.foldl_append]
        exact esqEnumEntries_visited rest _

end

section

variable {σ : Type*} (cb : List UInt8 → Nat → σ → Int × σ)

theorem foldl_logged : ∀ (paths : List (List UInt8)) (s : σ) (log : List Int),
    paths.foldl (fun s p => (logged cb p p.length s).2) (s, log)
      = (passAll cb paths s, log ++ answersTo cb paths s)
  | [], s, log => by rw [answersTo, List.append_nil]; rfl
  | p :: ps, s, log => by
    rw [List.foldl_cons]
    show ps.foldl _ ((cb p p.length s).2, log ++ [(cb p p.length s).1]) = _
    rw [foldl_logged ps, List.append_assoc]
    rfl

/-- **`cb` が何を返しても、渡る file は同じである。** -/
theorem FsRoot.answers_eq (r : FsRoot) (stack : Vector UInt8 (esqFilePathMax + 4))
    (rest : List UInt8) (s : σ) : r.answers cb stack rest s = answersTo cb r.visited s := by
  have hfold : ∀ paths : List (List UInt8),
      (paths.foldl (fun s p => (logged cb p p.length s).2) (s, [])).2 = answersTo cb paths s :=
    fun paths => by rw [foldl_logged, List.nil_append]
  unfold FsRoot.answers
  rw [r.enumerators_eq, ← hfold]
  unfold FsRoot.visited
  cases hnode : r.node with
  | folder entries =>
    dsimp only
    by_cases hlt : r.bytes.length < esqFilePathMax
    · rw [if_pos hlt, if_pos hlt, esqEnumPath]
      rcases r.folderPath_dir hlt with hdir | ⟨hnone, hlong⟩
      · rw [hdir, List.foldl_map]
        dsimp only
        rw [esqEnumEntries_visited]
      · rw [hnone, FsEntries.visited_of_long hlong]
        rfl
    · rw [if_neg hlt, if_neg hlt]
      rfl
  | file =>
    dsimp only
    split
    · rfl
    · rfl
  | special => split <;> rfl
  | absent => split <;> rfl
  | denied => split <;> rfl

theorem answersTo_append : ∀ (ps qs : List (List UInt8)) (s : σ),
    answersTo cb (ps ++ qs) s = answersTo cb ps s ++ answersTo cb qs (passAll cb ps s)
  | [], _, _ => rfl
  | p :: ps, qs, s => congrArg ((cb p p.length s).1 :: ·) (answersTo_append ps qs _)

theorem length_answersTo : ∀ (ps : List (List UInt8)) (s : σ),
    (answersTo cb ps s).length = ps.length
  | [], _ => rfl
  | p :: ps, s => congrArg (· + 1) (length_answersTo ps (cb p p.length s).2)

/--
**`cb` が 1 を返した後に呼ばれないのは、渡る file のうち最後のもの以外に `cb` が 1 を返さないとき、
そのときに限る。**
-/
theorem fileEnumerators_stop_iff (r : FsRoot) (stack : Vector UInt8 (esqFilePathMax + 4))
    (rest : List UInt8) (s : σ) :
    StopsOnRequest (r.answers cb stack rest s) ↔
      ∀ before p after, r.visited = before ++ p :: after → after ≠ [] →
        (cb p p.length (passAll cb before s)).1 ≠ 1 := by
  rw [r.answers_eq]
  constructor
  · intro hstop before p after hsplit hmore hone
    have hlog : answersTo cb r.visited s = answersTo cb before s ++
        1 :: answersTo cb after (cb p p.length (passAll cb before s)).2 := by
      rw [hsplit, answersTo_append, answersTo, hone]
    have hnil := congrArg List.length (hstop _ _ hlog)
    rw [length_answersTo, List.length_nil] at hnil
    exact hmore (List.length_eq_zero_iff.mp hnil)
  · intro hquiet log₁ log₂ hlog
    -- 1 を返した file で、渡る列を分ける
    have hlen := congrArg List.length hlog
    rw [length_answersTo, List.length_append, List.length_cons] at hlen
    obtain ⟨p, after, hdrop⟩ := List.exists_cons_of_length_pos
      (l := r.visited.drop log₁.length) (by rw [List.length_drop]; omega)
    have hsplit : r.visited = r.visited.take log₁.length ++ p :: after := by
      rw [← hdrop, List.take_append_drop]
    have htake : (r.visited.take log₁.length).length = log₁.length := by
      rw [List.length_take]
      omega
    rw [hsplit, answersTo_append, answersTo] at hlog
    obtain ⟨-, hrest⟩ := List.append_inj hlog (by rw [length_answersTo, htake])
    obtain ⟨hone, hafter⟩ := List.cons.inj hrest
    by_contra hne
    refine hquiet _ p after hsplit (fun hnil => hne ?_) hone
    rw [← hafter, hnil]
    rfl

end

def FileName.ofChar (c : UInt8) (h : 0 ≠ c ∧ 47 ≠ c) : FileName where
  bytes := [c]
  ne_nil := List.cons_ne_nil c []
  no_nul := fun hm => h.1 (List.mem_singleton.mp hm)
  no_slash := fun hm => h.2 (List.mem_singleton.mp hm)

def twoFilesRoot : FsRoot where
  bytes := (FileName.ofChar 114 (by decide)).bytes
  ne_nil := (FileName.ofChar 114 (by decide)).ne_nil
  no_nul := (FileName.ofChar 114 (by decide)).no_nul
  node := .folder (.cons (.ofChar 97 (by decide)) .file (.cons (.ofChar 98 (by decide)) .file .nil))

/-- いつも 1 を返す `cb` が、二度呼ばれる。 -/
theorem fileEnumerators_ignores_stop :
    ¬ ∀ (r : FsRoot) (stack : Vector UInt8 (esqFilePathMax + 4)) (rest : List UInt8) {σ : Type}
      (cb : List UInt8 → Nat → σ → Int × σ) (s : σ),
      StopsOnRequest (r.answers cb stack rest s) := by
  intro h
  have hstop := h twoFilesRoot (Vector.replicate _ 0) [] (fun _ _ (s : Unit) => (1, s)) ()
  rw [FsRoot.answers_eq] at hstop
  have hlog : answersTo (fun _ _ (s : Unit) => ((1 : Int), s)) twoFilesRoot.visited () = [1, 1] := by
    decide
  exact List.cons_ne_nil 1 [] (hstop [] [1] hlog)

end Esq
