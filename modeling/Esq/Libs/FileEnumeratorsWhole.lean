import Esq.Libs.FileEnumerators
import Esq.Libs.Memory

/-!
# すべての file の列挙

`libs/file-enumerators/file-enumerators.c` の `esq_file_enumerators` が、どの file も一度ずつ `cb` に渡すか。

経路は一つの buffer に書かれ、兄弟の entry が同じ所を書き換える。`esqEnumPathBuf` は buffer のまま書いたもので、
`cb` に渡る文字列は `esqEnumPath` の経路である（`esqEnumPathBuf_eq`）。
-/

namespace Esq

/-! ## 一つの buffer -/

section

variable {σ : Type*} (cb : List UInt8 → Nat → σ → Int × σ)

mutual

/-- `esq_enum_path`。`opendir` と `stat` の結果は `FsNode` である。 -/
def esqEnumPathBuf (buf : List UInt8) (length : Nat) : FsNode → σ → Int × List UInt8 × σ
  | .folder entries, s =>
    if 0 < length ∧ buf.getD (length - 1) 0 = 47 then
      let (buf, s) := esqEnumEntriesBuf buf length entries s
      (0, buf, s)
    else if length + 1 < esqFilePathMax then
      let (buf, s) := esqEnumEntriesBuf (buf.set length 47) (length + 1) entries s
      (0, buf, s)
    else (0, buf, s)
  | .file, s => (0, buf, (cb (cstring buf) length s).2)
  | .special, s => (0, buf, s)
  | .absent, s => (esqErrorNotfound, buf, s)
  | .denied, s => (esqErrorParam, buf, s)

def esqEnumEntriesBuf (buf : List UInt8) (length : Nat) : FsEntries → σ → List UInt8 × σ
  | .nil, s => (buf, s)
  | .cons name node rest, s =>
    if name.hidden then esqEnumEntriesBuf buf length rest s
    else if name.bytes.length ≥ esqFilePathMax then esqEnumEntriesBuf buf length rest s
    else if length + name.bytes.length ≥ esqFilePathMax then esqEnumEntriesBuf buf length rest s
    else
      let buf := (splice buf length name.bytes).set (length + name.bytes.length) 0
      let (r, buf, s) := esqEnumPathBuf buf (length + name.bytes.length) node s
      if r ≠ 0 then (buf, s) else esqEnumEntriesBuf buf length rest s

end

/-- `esq_file_enumerators`。`stack` は `path[ESQ_FILE_PATH_MAX + 4]` の初めの中身である。 -/
def esqFileEnumeratorsBuf (stack root : List UInt8) (node : FsNode) (s : σ) : Int × σ :=
  let length := (strn root esqFilePathMax).length
  if length = 0 ∨ length ≥ esqFilePathMax then (esqErrorParam, s)
  else
    let buf := (splice stack 0 (root.take length)).set length 0
    let (r, _, s) := esqEnumPathBuf cb buf length node s
    (r, s)

end

/-! ## 名前のある folder -/

/-- `root` の経路と、そこにあるもの。空の経路には何も無い。 -/
structure FsRoot where
  bytes : List UInt8
  ne_nil : bytes ≠ []
  no_nul : 0 ∉ bytes
  node : FsNode

def FsRoot.dir (r : FsRoot) : List UInt8 :=
  if r.bytes.getLast? = some 47 then r.bytes else r.bytes ++ [47]

/-- 隠れていない folder を通って着く、経路が 1024 byte に達しない file の経路。 -/
def FsRoot.files (r : FsRoot) : List (List UInt8) :=
  match r.node with
  | .folder entries => (entries.within r.dir.length).map (r.dir ++ ·)
  | .file => if r.bytes.length < esqFilePathMax then [r.bytes] else []
  | _ => []

/-- 開けない entry の後に、同じ folder から着く file が無い。 -/
def FsRoot.Unblocked (r : FsRoot) : Prop :=
  match r.node with
  | .folder entries => entries.Unblocked r.dir.length
  | _ => True

def recordCall (path : List UInt8) (length : Nat) (calls : List (List UInt8 × Nat)) :
    Int × List (List UInt8 × Nat) := (0, calls ++ [(path, length)])

def FsRoot.calls (r : FsRoot) (stack : Vector UInt8 (esqFilePathMax + 4)) (rest : List UInt8) :
    List (List UInt8 × Nat) :=
  (esqFileEnumeratorsBuf recordCall stack.toList (r.bytes ++ 0 :: rest) r.node []).2

section

variable {σ : Type*} {cb : List UInt8 → Nat → σ → Int × σ} {path dir rest : List UInt8} {s : σ}

/-! ## 経路は buffer にある -/

theorem folderPath_eq_iff (hpos : path ≠ []) (rest : List UInt8) :
    (0 < path.length ∧ (path ++ rest).getD (path.length - 1) 0 = 47) ↔ path.getLast? = some 47 := by
  obtain ⟨init, c, rfl⟩ := List.eq_nil_or_concat path |>.resolve_left hpos
  rw [List.concat_eq_append, List.length_append, List.length_singleton, Nat.add_sub_cancel,
    List.getD_eq_getElem?_getD, List.append_assoc, List.getElem?_append_right le_rfl, Nat.sub_self]
  simp

theorem splice_name (dir rest : List UInt8) (name : FileName)
    (h : name.bytes.length < rest.length) :
    ∃ rest', (splice (dir ++ rest) dir.length name.bytes).set (dir.length + name.bytes.length) 0
        = (dir ++ name.bytes) ++ 0 :: rest' ∧
      rest'.length + name.bytes.length + 1 = rest.length := by
  obtain ⟨c, rest', hrest⟩ := List.exists_cons_of_length_pos (l := rest.drop name.bytes.length) (by
    rw [List.length_drop]; omega)
  have hlen := congrArg List.length hrest
  rw [List.length_drop, List.length_cons] at hlen
  refine ⟨rest', ?_, by omega⟩
  rw [splice_append, set_append, hrest, List.append_assoc]
  exact congrArg (dir ++ ·) (set_append name.bytes (c :: rest') 0 0)

variable (cb) in
mutual

theorem esqEnumPathBuf_eq : ∀ (node : FsNode) (path rest : List UInt8) (s : σ),
    path ≠ [] → 0 ∉ path →
    path.length < esqFilePathMax → (path ++ 0 :: rest).length = esqFilePathMax + 4 → ∃ rest',
      esqEnumPathBuf cb (path ++ 0 :: rest) path.length node s
        = ((esqEnumPath (fun p => cb p p.length) path node s).1, path ++ rest',
            (esqEnumPath (fun p => cb p p.length) path node s).2) ∧
      rest'.length = rest.length + 1
  | .folder entries, path, rest, s, hne, hzero, hlt, hlen => by
    unfold esqEnumPathBuf esqEnumPath folderPath
    by_cases hslash : path.getLast? = some 47
    · rw [if_pos ((folderPath_eq_iff hne _).mpr hslash), if_pos hslash]
      obtain ⟨rest', hrun, hrest'⟩ := esqEnumEntriesBuf_eq entries path (0 :: rest) s hzero hlen
      rw [hrun]
      exact ⟨rest', rfl, hrest'⟩
    · rw [if_neg (mt (folderPath_eq_iff hne _).mp hslash), if_neg hslash]
      by_cases hfit : path.length + 1 < esqFilePathMax
      · have hset : (path ++ 0 :: rest).set path.length 47 = (path ++ [47]) ++ rest := by
          rw [List.append_assoc]
          exact set_append path (0 :: rest) 0 47
        have hlen' : (path ++ [47]).length = path.length + 1 := List.length_append
        have hzero' : 0 ∉ path ++ [47] := by simpa using hzero
        rw [if_pos hfit, if_pos hfit, hset, ← hlen']
        obtain ⟨rest', hrun, hrest'⟩ := esqEnumEntriesBuf_eq entries (path ++ [47]) rest s
          hzero' (by
          rw [← hlen, List.append_assoc]; simp)
        rw [hrun]
        exact ⟨47 :: rest', by simp, by simp [hrest']⟩
      · rw [if_neg hfit, if_neg hfit]
        exact ⟨0 :: rest, rfl, rfl⟩
  | .file, path, rest, s, _, hzero, _, _ => by
    unfold esqEnumPathBuf esqEnumPath
    rw [cstring_append_zero hzero]
    exact ⟨0 :: rest, rfl, rfl⟩
  | .special, _, rest, _, _, _, _, _ => ⟨0 :: rest, rfl, rfl⟩
  | .absent, _, rest, _, _, _, _, _ => ⟨0 :: rest, rfl, rfl⟩
  | .denied, _, rest, _, _, _, _, _ => ⟨0 :: rest, rfl, rfl⟩

theorem esqEnumEntriesBuf_eq : ∀ (entries : FsEntries) (dir rest : List UInt8) (s : σ), 0 ∉ dir →
    (dir ++ rest).length = esqFilePathMax + 4 → ∃ rest',
      esqEnumEntriesBuf cb (dir ++ rest) dir.length entries s
        = (dir ++ rest', esqEnumEntries (fun p => cb p p.length) dir entries s) ∧
      rest'.length = rest.length
  | .nil, dir, rest, s, _, _ => ⟨rest, rfl, rfl⟩
  | .cons name node more, dir, rest, s, hzero, hlen => by
    unfold esqEnumEntriesBuf esqEnumEntries
    split
    · exact esqEnumEntriesBuf_eq more dir rest s hzero hlen
    split
    · exact esqEnumEntriesBuf_eq more dir rest s hzero hlen
    split
    · exact esqEnumEntriesBuf_eq more dir rest s hzero hlen
    next hshort =>
      rw [List.length_append] at hlen
      obtain ⟨rest₁, hbuf, hrest₁⟩ := splice_name dir rest name (by omega)
      have hzero' : 0 ∉ dir ++ name.bytes := by
        rw [List.mem_append, not_or]
        exact ⟨hzero, name.no_nul⟩
      have hne : dir ++ name.bytes ≠ [] := List.append_ne_nil_of_right_ne_nil dir name.ne_nil
      have hcat : (dir ++ name.bytes).length = dir.length + name.bytes.length := List.length_append
      obtain ⟨rest₂, hrun, hrest₂⟩ := esqEnumPathBuf_eq node (dir ++ name.bytes) rest₁ s hne hzero'
        (by omega) (by rw [List.length_append, List.length_cons]; omega)
      rw [hcat] at hrun
      rw [hbuf]
      dsimp only
      rw [hrun]
      dsimp only
      have hlen₂ : (name.bytes ++ rest₂).length = rest.length := by
        rw [List.length_append]
        omega
      split
      · exact ⟨name.bytes ++ rest₂, by rw [List.append_assoc], hlen₂⟩
      · rw [List.append_assoc]
        obtain ⟨rest₃, hmore, hrest₃⟩ := esqEnumEntriesBuf_eq more dir (name.bytes ++ rest₂)
          (esqEnumPath (fun p => cb p p.length) (dir ++ name.bytes) node s).2 hzero
          (by rw [List.length_append, hlen₂, hlen])
        exact ⟨rest₃, hmore, hrest₃.trans hlen₂⟩

end

/-! ## 渡る file -/

theorem FsEntries.unblocked_of_long {len : Nat} (hlen : esqFilePathMax ≤ len + 1) :
    ∀ entries : FsEntries, entries.Unblocked len
  | .nil => trivial
  | .cons name node rest => by
    have hname := List.length_pos_iff.mpr name.ne_nil
    unfold FsEntries.Unblocked
    rw [if_pos (.inr (by omega))]
    exact unblocked_of_long hlen rest

theorem FsEntries.unblocked_cons_skip {len : Nat} {name : FileName} (node : FsNode)
    (rest : FsEntries)
    (h : name.hidden ∨ len + name.bytes.length ≥ esqFilePathMax) :
    (cons name node rest).Unblocked len ↔ rest.Unblocked len := by
  rw [FsEntries.Unblocked.eq_def]
  dsimp only
  rw [if_pos h]

theorem FsEntries.unblocked_cons {len : Nat} {name : FileName} (node : FsNode) (rest : FsEntries)
    (h : ¬ (name.hidden ∨ len + name.bytes.length ≥ esqFilePathMax)) :
    (cons name node rest).Unblocked len ↔ match node with
      | .folder entries => entries.Unblocked (len + name.bytes.length + 1) ∧ rest.Unblocked len
      | .file => rest.Unblocked len
      | .special => rest.Unblocked len
      | .absent => rest.within len = []
      | .denied => rest.within len = [] := by
  rw [FsEntries.Unblocked.eq_def]
  dsimp only
  exact iff_of_eq (if_neg h)

theorem append_eq_append_iff_of_sublist {α : Type*} {a a' b b' : List α} (ha : a.Sublist a')
    (hb : b.Sublist b') : a ++ b = a' ++ b' ↔ a = a' ∧ b = b' := by
  constructor
  · intro h
    have hlen := congrArg List.length h
    rw [List.length_append, List.length_append] at hlen
    have hla := ha.length_le
    have hlb := hb.length_le
    exact ⟨ha.eq_of_length (by omega), hb.eq_of_length (by omega)⟩
  · rintro ⟨rfl, rfl⟩
    rfl

variable {β : Type*} {f : List UInt8 → β}

/-- folder の entry の入口から渡る file は、着く file の部分列であり、すべてであるのは読まれない file が無いときである。 -/
structure Enumerated (f : List UInt8 → β) (dir : List UInt8) (found : List (List UInt8))
    (open' : Prop)
    (s s' : List β) (names : List (List UInt8)) : Prop where
  calls : s' = s ++ names.map fun n => f (dir ++ n)
  sublist : names.Sublist found
  all_iff : names = found ↔ open'

def recordPath (f : List UInt8 → β) (path : List UInt8) (s : List β) : Int × List β :=
  (0, s ++ [f path])

theorem esqEnumEntries_record : ∀ (entries : FsEntries) (dir : List UInt8) (s : List β), ∃ names,
    Enumerated f dir (entries.within dir.length) (entries.Unblocked dir.length) s
      (esqEnumEntries (recordPath f) dir entries s) names
  | .nil, dir, s => ⟨[], by rw [List.map_nil, List.append_nil]; rfl, List.Sublist.refl _,
    iff_of_true rfl trivial⟩
  | .cons name node rest, dir, s => by
    by_cases hskip : name.hidden ∨ dir.length + name.bytes.length ≥ esqFilePathMax
    · have hrun : esqEnumEntries (recordPath f) dir (.cons name node rest) s
          = esqEnumEntries (recordPath f) dir rest s := by
        rw [esqEnumEntries]
        rcases hskip with hhidden | hlong
        · rw [if_pos hhidden]
        · simp only [hlong, if_true, ite_self]
      rw [hrun, FsEntries.within_cons_skip node rest hskip,
        FsEntries.unblocked_cons_skip node rest hskip]
      exact esqEnumEntries_record rest dir s
    · obtain ⟨hshow, hshort⟩ := not_or.mp hskip
      rw [FsEntries.within_cons node rest hskip, FsEntries.unblocked_cons node rest hskip]
      rw [esqEnumEntries, if_neg hshow, if_neg (by omega), if_neg hshort]
      cases node with
      | file =>
        obtain ⟨names, h⟩ := esqEnumEntries_record rest dir (s ++ [f (dir ++ name.bytes)])
        refine ⟨name.bytes :: names, ?_, h.sublist.cons_cons _, ?_⟩
        · rw [List.map_cons, List.append_cons]
          exact h.calls
        · rw [List.singleton_append, List.cons_inj_right]
          exact h.all_iff
      | special => exact esqEnumEntries_record rest dir s
      | absent =>
        exact ⟨[], by rw [List.map_nil, List.append_nil]; rfl, List.nil_sublist _, eq_comm⟩
      | denied =>
        exact ⟨[], by rw [List.map_nil, List.append_nil]; rfl, List.nil_sublist _, eq_comm⟩
      | folder entries =>
        -- 中を列挙して、残りへ進む
        have hlen : (dir ++ name.bytes ++ [47]).length = dir.length + name.bytes.length + 1 := by
          rw [List.length_append, List.length_append]
          rfl
        have hinner : ∃ s₁ inner,
            esqEnumPath (recordPath f) (dir ++ name.bytes) (.folder entries) s = (0, s₁) ∧
              Enumerated f (dir ++ name.bytes ++ [47]) (entries.within
                (dir.length + name.bytes.length + 1))
                (entries.Unblocked (dir.length + name.bytes.length + 1)) s s₁ inner := by
          unfold esqEnumPath
          rw [folderPath_name]
          by_cases hfit : dir.length + name.bytes.length + 1 < esqFilePathMax
          · obtain ⟨inner, h⟩ := esqEnumEntries_record entries (dir ++ name.bytes ++ [47]) s
            rw [hlen] at h
            rw [if_pos hfit]
            exact ⟨_, inner, rfl, h⟩
          · rw [if_neg hfit, entries.within_eq_nil (by omega)]
            refine ⟨s, [], rfl, ?_, List.Sublist.refl _,
              iff_of_true rfl (FsEntries.unblocked_of_long (by omega) entries)⟩
            rw [List.map_nil, List.append_nil]
        obtain ⟨s₁, inner, hrun, hin⟩ := hinner
        obtain ⟨names, hrest⟩ := esqEnumEntries_record rest dir s₁
        rw [hrun]
        have hmap : (inner.map (name.bytes ++ 47 :: ·)).Sublist
            ((entries.within (dir.length + name.bytes.length + 1)).map (name.bytes ++ 47 :: ·)) :=
          hin.sublist.map _
        have hinj : Function.Injective fun n : List UInt8 => name.bytes ++ 47 :: n :=
            fun a b hab => by
          simpa using hab
        have hcalls : inner.map (fun n => f (dir ++ name.bytes ++ [47] ++ n))
            = (inner.map (name.bytes ++ 47 :: ·)).map fun n => f (dir ++ n) := by
          rw [List.map_map]
          refine List.map_congr_left fun n _ => congrArg f ?_
          simp only [List.append_assoc, List.singleton_append]
        refine ⟨inner.map (name.bytes ++ 47 :: ·) ++ names, (if_neg (by decide)).trans ?_,
          hmap.append hrest.sublist, ?_⟩
        · rw [hrest.calls, hin.calls, hcalls, List.map_append, List.append_assoc]
        · rw [append_eq_append_iff_of_sublist hmap hrest.sublist, hinj.list_map.eq_iff, hin.all_iff,
            hrest.all_iff]

/-! ## `esq_file_enumerators` -/

/-- **buffer の上の列挙は、値の上の列挙である。** -/
theorem FsRoot.enumerators_eq {σ : Type*} (r : FsRoot) (cb : List UInt8 → Nat → σ → Int × σ)
    (stack : Vector UInt8 (esqFilePathMax + 4)) (rest : List UInt8) (s : σ) :
    esqFileEnumeratorsBuf cb stack.toList (r.bytes ++ 0 :: rest) r.node s
      = if r.bytes.length < esqFilePathMax then
          esqEnumPath (fun p => cb p p.length) r.bytes r.node s else (esqErrorParam, s) := by
  have hpos := List.length_pos_iff.mpr r.ne_nil
  have hstack : stack.toList.length = esqFilePathMax + 4 := stack.length_toList
  have hstr : (strn (r.bytes ++ 0 :: rest) esqFilePathMax)
      = if r.bytes.length < esqFilePathMax then r.bytes else r.bytes.take esqFilePathMax := by
    split
    next hlt => exact strn_append_zero r.no_nul hlt rest
    next hge =>
      unfold strn
      rw [List.take_append_of_le_length (Nat.le_of_not_lt hge)]
      have := cstring_append (s := r.bytes.take esqFilePathMax)
        (fun h => r.no_nul (List.mem_of_mem_take h)) []
      simpa using this
  unfold esqFileEnumeratorsBuf
  rw [hstr]
  by_cases hlt : r.bytes.length < esqFilePathMax
  · obtain ⟨c, stack', hc⟩ := List.exists_cons_of_length_pos
      (l := stack.toList.drop r.bytes.length) (by rw [List.length_drop]; omega)
    have hlen := congrArg List.length hc
    rw [List.length_drop, List.length_cons] at hlen
    have hbuf : (splice stack.toList 0 (r.bytes ++ 0 :: rest |>.take r.bytes.length)).set
          r.bytes.length 0
        = r.bytes ++ 0 :: stack' := by
      rw [List.take_left]
      have hsplice := splice_append [] stack.toList r.bytes
      rw [List.nil_append, List.length_nil, List.nil_append, hc] at hsplice
      rw [hsplice]
      exact set_append r.bytes (c :: stack') 0 0
    rw [if_pos hlt, if_pos hlt]
    dsimp only
    rw [if_neg (by omega), hbuf]
    obtain ⟨rest', hrun, -⟩ := esqEnumPathBuf_eq cb r.node r.bytes stack' s r.ne_nil r.no_nul hlt
      (by rw [List.length_append, List.length_cons]; omega)
    rw [hrun]
  · rw [if_neg hlt, if_neg hlt]
    dsimp only
    rw [if_pos]
    rw [List.length_take]
    omega

theorem FsRoot.calls_eq (r : FsRoot) (stack : Vector UInt8 (esqFilePathMax + 4))
    (rest : List UInt8) :
    r.calls stack rest = if r.bytes.length < esqFilePathMax then
      (esqEnumPath (recordPath fun p => (p, p.length)) r.bytes r.node []).2 else [] := by
  unfold FsRoot.calls
  rw [r.enumerators_eq]
  split
  · rfl
  · rfl

theorem FsRoot.folderPath_dir (r : FsRoot) (hlt : r.bytes.length < esqFilePathMax) :
    folderPath r.bytes = some r.dir ∨
      (folderPath r.bytes = none ∧ esqFilePathMax ≤ r.dir.length + 1) := by
  unfold folderPath FsRoot.dir
  by_cases hslash : r.bytes.getLast? = some 47
  · rw [if_pos hslash, if_pos hslash]
    exact .inl rfl
  · rw [if_neg hslash, if_neg hslash]
    split
    · exact .inl rfl
    · refine .inr ⟨rfl, ?_⟩
      rw [List.length_append, List.length_singleton]
      omega

theorem FsRoot.length_dir (r : FsRoot) : r.bytes.length ≤ r.dir.length := by
  unfold FsRoot.dir
  split
  · exact le_rfl
  · exact List.length_append.symm ▸ Nat.le_add_right _ _

theorem FsRoot.complete_of_long (r : FsRoot) {entries : FsEntries}
    (hnode : r.node = .folder entries)
    (hlong : esqFilePathMax ≤ r.dir.length + 1) : r.files = [] ∧ r.Unblocked := by
  unfold FsRoot.files FsRoot.Unblocked
  rw [hnode]
  dsimp only
  rw [entries.within_eq_nil hlong]
  exact ⟨rfl, FsEntries.unblocked_of_long hlong entries⟩

/--
**`cb` が 0 を返すとき、隠れていない folder を通って着く、経路が 1024 byte に達しないどの file も一度ずつ渡るのは、
開けない entry の後に着く file が無いとき、そのときに限る。**
-/
theorem fileEnumerators_complete_iff (r : FsRoot) (stack : Vector UInt8 (esqFilePathMax + 4))
    (rest : List UInt8) :
    (r.calls stack rest).Perm (r.files.map fun p => (p, p.length)) ↔ r.Unblocked := by
  rw [r.calls_eq]
  cases hnode : r.node with
  | folder entries =>
    by_cases hlt : r.bytes.length < esqFilePathMax
    · rw [if_pos hlt, esqEnumPath]
      rcases r.folderPath_dir hlt with hdir | ⟨hnone, hlong⟩
      · rw [hdir]
        obtain ⟨names, h⟩ := esqEnumEntries_record (f := fun p => (p, p.length)) entries r.dir []
        have hfiles : r.files.map (fun p => (p, p.length))
            = (entries.within r.dir.length).map fun n => (r.dir ++ n, (r.dir ++ n).length) := by
          unfold FsRoot.files
          rw [hnode, List.map_map]
          rfl
        have hopen : r.Unblocked ↔ entries.Unblocked r.dir.length := by
          unfold FsRoot.Unblocked
          rw [hnode]
        dsimp only
        rw [h.calls, List.nil_append, hfiles, hopen, ← h.all_iff]
        refine ⟨fun hperm => h.sublist.eq_of_length ?_, fun he => by rw [he]⟩
        have hlen := hperm.length_eq
        rwa [List.length_map, List.length_map] at hlen
      · obtain ⟨hfiles, hopen⟩ := r.complete_of_long hnode hlong
        rw [hnone, hfiles]
        exact iff_of_true (List.Perm.refl _) hopen
    · have hlong := r.length_dir
      obtain ⟨hfiles, hopen⟩ := r.complete_of_long hnode (by omega)
      rw [if_neg hlt, hfiles]
      exact iff_of_true (List.Perm.refl _) hopen
  | file =>
    unfold FsRoot.files FsRoot.Unblocked
    rw [hnode]
    refine iff_of_true ?_ trivial
    dsimp only
    split
    · exact List.Perm.refl _
    · exact List.Perm.refl _
  | special =>
    unfold FsRoot.files FsRoot.Unblocked
    rw [hnode]
    exact iff_of_true (by rw [esqEnumPath, ite_self]; exact List.Perm.refl _) trivial
  | absent =>
    unfold FsRoot.files FsRoot.Unblocked
    rw [hnode]
    exact iff_of_true (by rw [esqEnumPath, ite_self]; exact List.Perm.refl _) trivial
  | denied =>
    unfold FsRoot.files FsRoot.Unblocked
    rw [hnode]
    exact iff_of_true (by rw [esqEnumPath, ite_self]; exact List.Perm.refl _) trivial

/-- `r` の下に、開けない `l`、その後に file `f` がある。 -/
def danglingRoot : FsRoot where
  bytes := [114]
  ne_nil := by decide
  no_nul := by decide
  node := .folder (.cons ⟨[108], by decide, by decide, by decide⟩ .absent
    (.cons ⟨[102], by decide, by decide, by decide⟩ .file .nil))

/-- 切れた link の後の file は渡らない。 -/
theorem fileEnumerators_dangling :
    ¬ ∀ (r : FsRoot) (stack : Vector UInt8 (esqFilePathMax + 4)) (rest : List UInt8),
      (r.calls stack rest).Perm (r.files.map fun p => (p, p.length)) := by
  intro h
  have hfiles : danglingRoot.files = [[114, 47, 102]] := by decide
  have hcalls : danglingRoot.calls (Vector.replicate _ 0) [] = [] := by
    rw [FsRoot.calls_eq]
    decide
  have hperm := h danglingRoot (Vector.replicate _ 0) []
  rw [hcalls, hfiles] at hperm
  exact absurd hperm.length_eq (by decide)

end

end Esq
