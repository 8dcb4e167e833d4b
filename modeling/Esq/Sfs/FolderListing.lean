import Esq.Sfs.Folder

/-!
# directory の一覧

行は、入らなければ次の buffer の初めに書き直すので、欠けも重なりもしない。終わりだけは書き直さない。入らなければ、
それまで書いた buffer を捨てて EOF にする。
-/

namespace Esq

def SfsDirent.shown (dType : SfsDType) (ent : SfsDirent) : Bool :=
  decide (ent.dType = dType ∧ ent.dName.bytes.head? ≠ some 46)

section

variable (folder : SfsFolder) (path : List UInt8)

/-- `dType` の entry の行。`itemIdx` から数える。 -/
def sfsRows (dType : SfsDType) (suffix : List UInt8) (itemIdx : Nat) (ents : List SfsDirent) :
    List (List UInt8) :=
  (ents.filter (SfsDirent.shown dType)).mapIdx fun k ent => sfsEntryRow folder path suffix
    (itemIdx + k) ent

def sfsFileRows (itemIdx : Nat) (ents : List SfsDirent) : List (List UInt8) :=
  sfsRows folder path .reg [] itemIdx ents

def sfsDirRows (itemIdx : Nat) (ents : List SfsDirent) : List (List UInt8) :=
  let dirs := sfsRows folder path .dir [47] itemIdx ents
  dirs ++ sfsFileRows folder path (itemIdx + dirs.length) folder.entries

def sfsUpperRow : List (List UInt8) :=
  if path.length = 0 then []
  else
    let lastSlash := findLastSlash path
    let upper := if lastSlash ≤ 0 then [] else path.take lastSlash.toNat ++ [47]
    [sfsRow (ascii "class=\"tdo\"") (folder.pathHead.bytes ++ upper) (ascii "../")]

def sfsListing : List (List UInt8) :=
  sfsHeadText folder path :: sfsUpperRow folder path ++
    sfsDirRows folder path (sfsUpperRow folder path).length folder.entries

/-- この長さのものを順に buffer に入れ、入らなければ次の buffer に入れたときの、最後の buffer の長さ。 -/
def lastOffset (cap : Nat) : Nat → List Nat → Nat
  | offset, [] => offset
  | offset, n :: ns =>
    if offset + n < cap then lastOffset cap (offset + n) ns
    else lastOffset cap n ns

/-- entry を読んでいる間の `ctx`。これから書く行、loop が回る回数、書き直しを待つかを添える。 -/
inductive SfsReading : SfsFolderCtx → List (List UInt8) → Nat → Bool → Prop where
  | dir {ctx : SfsFolderCtx} (hstat : ctx.dirOutputStat = .dir) (hpath : ctx.path = path)
      (hrest : ctx.dir.length ≤ folder.entries.length) :
      SfsReading ctx (sfsDirRows folder path ctx.itemIdx ctx.dir)
        (ctx.dir.length + folder.entries.length + 4) false
  | dirCont {ctx : SfsFolderCtx} {ent : SfsDirent} (hstat : ctx.dirOutputStat = .dirCont)
      (hpath : ctx.path = path) (hrest : ctx.dir.length ≤ folder.entries.length)
        (hent : ctx.ent = some ent)
      (hshown : ent.shown .dir = true) :
      SfsReading ctx (sfsEntryRow folder path [47] ctx.itemIdx ent ::
        sfsDirRows folder path (ctx.itemIdx + 1) ctx.dir)
          (ctx.dir.length + folder.entries.length + 5) true
  | file {ctx : SfsFolderCtx} (hstat : ctx.dirOutputStat = .file) (hpath : ctx.path = path)
      (hrest : ctx.dir.length ≤ folder.entries.length) :
      SfsReading ctx (sfsFileRows folder path ctx.itemIdx ctx.dir) (ctx.dir.length + 3) false
  | fileCont {ctx : SfsFolderCtx} {ent : SfsDirent} (hstat : ctx.dirOutputStat = .fileCont)
      (hpath : ctx.path = path) (hrest : ctx.dir.length ≤ folder.entries.length)
        (hent : ctx.ent = some ent)
      (hshown : ent.shown .reg = true) :
      SfsReading ctx (sfsEntryRow folder path [] ctx.itemIdx ent ::
        sfsFileRows folder path (ctx.itemIdx + 1) ctx.dir) (ctx.dir.length + 4) true
  | tail {ctx : SfsFolderCtx} (hstat : ctx.dirOutputStat = .tail) : SfsReading ctx [] 2 false

end

section

variable {folder : SfsFolder} {path suffix : List UInt8} {ctx ctx' : SfsFolderCtx} {ent : SfsDirent}
  {ents : List SfsDirent} {len i : Nat} {dType : SfsDType}

/-! ## 行 -/

theorem sfsRows_cons_shown (h : ent.shown dType = true) :
    sfsRows folder path dType suffix i (ent :: ents)
      = sfsEntryRow folder path suffix i ent :: sfsRows folder path dType suffix (i + 1) ents := by
  unfold sfsRows
  rw [List.filter_cons_of_pos h, List.mapIdx_cons, Nat.add_zero]
  simp only [Nat.add_right_comm i 1, Nat.add_assoc]

theorem sfsRows_cons_hidden (h : ¬ent.shown dType = true) :
    sfsRows folder path dType suffix i (ent :: ents) = sfsRows folder path dType suffix i ents := by
  unfold sfsRows
  rw [List.filter_cons_of_neg h]

theorem sfsDirRows_cons_shown (h : ent.shown .dir = true) :
    sfsDirRows folder path i (ent :: ents)
      = sfsEntryRow folder path [47] i ent :: sfsDirRows folder path (i + 1) ents := by
  unfold sfsDirRows
  rw [sfsRows_cons_shown h]
  simp only [List.length_cons, List.cons_append, Nat.add_assoc, Nat.add_comm 1]

theorem sfsDirRows_cons_hidden (h : ¬ent.shown .dir = true) :
    sfsDirRows folder path i (ent :: ents) = sfsDirRows folder path i ents := by
  unfold sfsDirRows
  rw [sfsRows_cons_hidden h]

theorem truncated_eq_true_iff {n : Nat} (hn : 0 < n) : truncated n len = true ↔ len ≤ n := by
  unfold truncated
  simp only [Bool.or_eq_true, decide_eq_true_eq]
  omega

theorem sfsRow_pos (c h n : List UInt8) : 0 < (sfsRow c h n).length := by
  unfold sfsRow
  simp only [List.length_append]
  have hlen : (ascii "<tr><td ").length = 8 := ascii_length _
  omega

theorem sfsEntryRow_pos (folder : SfsFolder) (path suffix : List UInt8) (i : Nat)
    (ent : SfsDirent) :
    0 < (sfsEntryRow folder path suffix i ent).length := sfsRow_pos _ _ _

theorem sfsLocalFolderOutput_hidden (folder : SfsFolder) (suffix : List UInt8) (len : Nat)
    (ctx : SfsFolderCtx)
    (h : ent.dName.bytes.head? = some 46) :
    sfsLocalFolderOutput folder suffix len ent ctx = (-1, [], ctx) := if_pos h

theorem sfsLocalFolderOutput_full (h : ent.dName.bytes.head? ≠ some 46)
    (hle : len ≤ (sfsEntryRow folder ctx.path suffix ctx.itemIdx ent).length) :
    sfsLocalFolderOutput folder suffix len ent ctx = (-2, [], ctx) := by
  have hpos := sfsEntryRow_pos folder ctx.path suffix ctx.itemIdx ent
  unfold sfsLocalFolderOutput
  rw [if_neg h]
  dsimp only
  rw [if_pos ((truncated_eq_true_iff hpos).mpr hle)]

theorem sfsLocalFolderOutput_row (h : ent.dName.bytes.head? ≠ some 46)
    (hlt : (sfsEntryRow folder ctx.path suffix ctx.itemIdx ent).length < len) :
    sfsLocalFolderOutput folder suffix len ent ctx
      = (((sfsEntryRow folder ctx.path suffix ctx.itemIdx ent).length : Int),
          sfsEntryRow folder ctx.path suffix ctx.itemIdx ent,
            { ctx with itemIdx := ctx.itemIdx + 1 }) := by
  have hpos := sfsEntryRow_pos folder ctx.path suffix ctx.itemIdx ent
  unfold sfsLocalFolderOutput
  rw [if_neg h]
  dsimp only
  rw [if_neg fun ht => absurd ((truncated_eq_true_iff hpos).mp ht) (Nat.not_le.mpr hlt)]

/-! ## 一歩 -/

inductive ItemWritten (folder : SfsFolder) (path : List UInt8) (len : Nat)
    (texts : List (List UInt8)) (steps : Nat) :
    Int × List UInt8 × SfsFolderCtx → Prop where
  /-- 書くものが無い -/
  | skip {ctx : SfsFolderCtx} {n : Nat} (hread : SfsReading folder path ctx texts n false)
    (hn : n < steps) :
      ItemWritten folder path len texts steps (-1, [], ctx)
  /-- 一行書く -/
  | row {text : List UInt8} {rest : List (List UInt8)} {ctx : SfsFolderCtx} {n : Nat}
      (htexts : texts = text :: rest) (hread : SfsReading folder path ctx rest n false)
        (hn : n < steps)
      (hpos : 0 < text.length) (hlt : text.length < len) :
      ItemWritten folder path len texts steps ((text.length : Int), text, ctx)
  /-- 入らない -/
  | full {text : List UInt8} {rest : List (List UInt8)} {ctx : SfsFolderCtx} {n : Nat}
      (htexts : texts = text :: rest) (hread : SfsReading folder path ctx texts n true)
      (hle : len ≤ text.length) :
      ItemWritten folder path len texts steps (-2, [], ctx)

theorem shown_iff : ent.shown dType = true ↔ ent.dType = dType ∧ ent.dName.bytes.head? ≠ some 46 :=
  decide_eq_true_iff

theorem itemWritten_dir (hstat : ctx.dirOutputStat = .dir) (hpath : ctx.path = path)
    (hrest : ctx.dir.length ≤ folder.entries.length) (len : Nat) :
    ItemWritten folder path len (sfsDirRows folder path ctx.itemIdx ctx.dir)
      (ctx.dir.length + folder.entries.length + 4)
        (sfsReadLocalFolderOutputOneItem folder len ctx) := by
  subst hpath
  unfold sfsReadLocalFolderOutputOneItem
  rw [hstat]
  dsimp only
  cases hdir : ctx.dir with
  | nil =>
    -- 初めに戻って、file を読む
    refine .skip (.file rfl rfl le_rfl) ?_
    dsimp only [List.length_nil]
    omega
  | cons ent dir =>
    rw [hdir, List.length_cons] at hrest
    have hle : dir.length ≤ folder.entries.length := Nat.le_of_succ_le hrest
    have hsteps : dir.length + folder.entries.length + 4 <
      (ent :: dir).length + folder.entries.length + 4 := by
      rw [List.length_cons]
      omega
    dsimp only
    by_cases htype : ent.dType = .dir
    · rw [if_pos htype]
      unfold sfsLocalFolderOutputDir
      by_cases hname : ent.dName.bytes.head? = some 46
      · rw [sfsLocalFolderOutput_hidden _ _ _ _ hname,
          sfsDirRows_cons_hidden fun h => (shown_iff.mp h).2 hname]
        exact .skip (.dir rfl rfl hle) hsteps
      · have hshown : ent.shown .dir = true := shown_iff.mpr ⟨htype, hname⟩
        rw [sfsDirRows_cons_shown hshown]
        by_cases hfull : len ≤ (sfsEntryRow folder ctx.path [47] ctx.itemIdx ent).length
        · rw [sfsLocalFolderOutput_full hname]
          · exact .full rfl (.dirCont rfl rfl hle rfl hshown) hfull
          · exact hfull
        · have hlt := Nat.lt_of_not_le hfull
          rw [sfsLocalFolderOutput_row hname]
          · have hpos := sfsEntryRow_pos folder ctx.path [47] ctx.itemIdx ent
            dsimp only
            rw [if_neg (by omega)]
            exact .row rfl (.dir rfl rfl hle) hsteps hpos hlt
          · exact hlt
    · rw [if_neg htype, sfsDirRows_cons_hidden fun h => htype (shown_iff.mp h).1]
      exact .skip (.dir rfl rfl hle) hsteps

theorem itemWritten_file (hstat : ctx.dirOutputStat = .file) (hpath : ctx.path = path)
    (hrest : ctx.dir.length ≤ folder.entries.length) (len : Nat) :
    ItemWritten folder path len (sfsFileRows folder path ctx.itemIdx ctx.dir) (ctx.dir.length + 3)
      (sfsReadLocalFolderOutputOneItem folder len ctx) := by
  subst hpath
  unfold sfsReadLocalFolderOutputOneItem
  rw [hstat]
  dsimp only
  cases hdir : ctx.dir with
  | nil => exact .skip (.tail rfl) (by omega)
  | cons ent dir =>
    rw [hdir, List.length_cons] at hrest
    have hle : dir.length ≤ folder.entries.length := Nat.le_of_succ_le hrest
    have hsteps : dir.length + 3 < (ent :: dir).length + 3 := by
      rw [List.length_cons]
      omega
    dsimp only
    unfold sfsFileRows
    by_cases htype : ent.dType = .reg
    · rw [if_pos htype]
      unfold sfsLocalFolderOutputFile
      by_cases hname : ent.dName.bytes.head? = some 46
      · rw [sfsLocalFolderOutput_hidden _ _ _ _ hname,
          sfsRows_cons_hidden fun h => (shown_iff.mp h).2 hname]
        exact .skip (.file rfl rfl hle) hsteps
      · have hshown : ent.shown .reg = true := shown_iff.mpr ⟨htype, hname⟩
        rw [sfsRows_cons_shown hshown]
        by_cases hfull : len ≤ (sfsEntryRow folder ctx.path [] ctx.itemIdx ent).length
        · rw [sfsLocalFolderOutput_full hname]
          · exact .full rfl (.fileCont rfl rfl hle rfl hshown) hfull
          · exact hfull
        · have hlt := Nat.lt_of_not_le hfull
          rw [sfsLocalFolderOutput_row hname]
          · have hpos := sfsEntryRow_pos folder ctx.path [] ctx.itemIdx ent
            dsimp only
            rw [if_neg (by omega)]
            exact .row rfl (.file rfl rfl hle) hsteps hpos hlt
          · exact hlt
    · rw [if_neg htype, sfsRows_cons_hidden fun h => htype (shown_iff.mp h).1]
      exact .skip (.file rfl rfl hle) hsteps

/-- **一歩で、書くものが無いか、一行書くか、入らないかである。** 待っている行は、入ることが要る。 -/
theorem itemWritten (len : Nat) {texts : List (List UInt8)} {n : Nat} {waiting : Bool}
    (hread : SfsReading folder path ctx texts n waiting) (hstat : ctx.dirOutputStat ≠ .tail)
    (hfit : waiting = true → ∀ text ∈ texts.head?, text.length < len) :
    ItemWritten folder path len texts n (sfsReadLocalFolderOutputOneItem folder len ctx) := by
  cases hread with
  | dir hdir hpath hrest => exact itemWritten_dir hdir hpath hrest len
  | file hfile hpath hrest => exact itemWritten_file hfile hpath hrest len
  | tail htail => exact absurd htail hstat
  | @dirCont ent hcont hpath hrest hent hshown =>
    subst hpath
    have hlt := hfit rfl _ rfl
    have hpos := sfsEntryRow_pos folder ctx.path [47] ctx.itemIdx ent
    obtain ⟨htype, hname⟩ := shown_iff.mp hshown
    unfold sfsReadLocalFolderOutputOneItem
    rw [hcont]
    dsimp only
    rw [hent]
    dsimp only
    unfold sfsLocalFolderOutputDir
    rw [if_pos htype, sfsLocalFolderOutput_row hname]
    · dsimp only
      rw [if_neg (by omega)]
      exact .row rfl (.dir rfl rfl hrest) (Nat.lt_succ_self _) hpos hlt
    · exact hlt
  | @fileCont ent hcont hpath hrest hent hshown =>
    subst hpath
    have hlt := hfit rfl _ rfl
    have hpos := sfsEntryRow_pos folder ctx.path [] ctx.itemIdx ent
    obtain ⟨htype, hname⟩ := shown_iff.mp hshown
    unfold sfsReadLocalFolderOutputOneItem
    rw [hcont]
    dsimp only
    rw [hent]
    dsimp only
    unfold sfsLocalFolderOutputFile
    rw [if_pos htype, sfsLocalFolderOutput_row hname]
    · dsimp only
      rw [if_neg (by omega)]
      exact .row rfl (.file rfl rfl hrest) (Nat.lt_succ_self _) hpos hlt
    · exact hlt

/-! ## 一つの buffer -/

inductive ChunkFilled (folder : SfsFolder) (path : List UInt8) (cap : Nat) (out : List UInt8)
    (texts : List (List UInt8)) : Option (List UInt8 × Bool × SfsFolderCtx) → Prop where
  /-- 終わりまで書いた -/
  | whole {ctx : SfsFolderCtx}
      (hlt : (out ++ texts.flatten).length + sfsFolderPageTail.length < cap) :
      ChunkFilled folder path cap out texts (some
        (out ++ texts.flatten ++ sfsFolderPageTail, true, ctx))
  /-- 終わりが入らない -/
  | lost {ctx : SfsFolderCtx} (hlt : (out ++ texts.flatten).length < cap)
      (hle : cap ≤ (out ++ texts.flatten).length + sfsFolderPageTail.length) :
      ChunkFilled folder path cap out texts (some ([], true, ctx))
  /-- `text` は入らず、次に書く -/
  | next {taken : List (List UInt8)} {text : List UInt8} {rest : List (List UInt8)}
    {ctx : SfsFolderCtx} {n : Nat}
      (htexts : texts = taken ++ text :: rest) (hread : SfsReading folder path ctx
        (text :: rest) n true)
      (hlt : (out ++ taken.flatten).length < cap)
        (hle : cap ≤ (out ++ taken.flatten).length + text.length) :
      ChunkFilled folder path cap out texts (some (out ++ taken.flatten, false, ctx))

theorem sfsFolderPageTail_length : sfsFolderPageTail.length = 26 := ascii_length _

theorem sfsFolderPageTail_pos : 0 < sfsFolderPageTail.length := by
  rw [sfsFolderPageTail_length]
  decide

theorem chunkFilled_tail (hstat : ctx.dirOutputStat = .tail) {cap n : Nat} (hn : 2 ≤ n)
    {out : List UInt8}
    (hout : out.length < cap) :
    ChunkFilled folder path cap out [] (sfsReadLocalFolderLoop folder cap n out ctx) := by
  have hpos := sfsFolderPageTail_pos
  obtain ⟨n, rfl⟩ := Nat.exists_eq_add_of_le' hn
  rw [sfsReadLocalFolderLoop, sfsReadLocalFolderOutputOneItem, hstat]
  dsimp only
  by_cases hle : cap - out.length ≤ sfsFolderPageTail.length
  · rw [if_pos ((truncated_eq_true_iff hpos).mpr hle)]
    refine .lost ?_ ?_
    · rwa [List.flatten_nil, List.append_nil]
    · rw [List.flatten_nil, List.append_nil]
      omega
  · rw [if_neg fun ht => hle ((truncated_eq_true_iff hpos).mp ht)]
    dsimp only
    rw [if_pos (by omega), sfsReadLocalFolderLoop, sfsReadLocalFolderOutputOneItem]
    have hwhole : out ++ sfsFolderPageTail = out ++
      ([] : List (List UInt8)).flatten ++ sfsFolderPageTail := by
      rw [List.flatten_nil, List.append_nil]
    dsimp only
    rw [if_neg (by omega), if_pos rfl, hwhole]
    refine .whole ?_
    rw [List.flatten_nil, List.append_nil]
    omega

theorem ChunkFilled.cons {cap : Nat} {out text : List UInt8} {texts : List (List UInt8)}
    {r : Option (List UInt8 × Bool × SfsFolderCtx)}
      (h : ChunkFilled folder path cap (out ++ text) texts r) :
    ChunkFilled folder path cap out (text :: texts) r := by
  have hflat : ∀ ts : List (List UInt8), out ++ text ++ ts.flatten
    = out ++ (text :: ts).flatten := by
    intro ts
    rw [List.flatten_cons, List.append_assoc]
  cases h with
  | whole hlt =>
    rw [hflat] at hlt ⊢
    exact .whole hlt
  | lost hlt hle =>
    rw [hflat] at hlt hle
    exact .lost hlt hle
  | @next taken text' rest ctx n htexts hread hlt hle =>
    rw [hflat] at hlt hle ⊢
    exact .next (by rw [htexts, List.cons_append]) hread hlt hle

/-- **一つの buffer に、入るだけの行を順に書く。** 待っている行は、入ることが要る。 -/
theorem chunkFilled {cap : Nat} : ∀ (n : Nat) {texts : List (List UInt8)} {steps : Nat}
    {waiting : Bool}
    {out : List UInt8} {ctx : SfsFolderCtx}, SfsReading folder path ctx texts steps waiting →
      steps ≤ n →
    out.length < cap → (waiting = true → ∀ text ∈ texts.head?, out.length + text.length < cap) →
    ChunkFilled folder path cap out texts (sfsReadLocalFolderLoop folder cap n out ctx) := by
  intro n
  induction n with
  | zero =>
    intro texts steps waiting out ctx hread hn _ _
    cases hread <;> omega
  | succ n ih =>
    intro texts steps waiting out ctx hread hn hout hfit
    by_cases htail : ctx.dirOutputStat = .tail
    · cases hread with
      | tail _ => exact chunkFilled_tail htail hn hout
      | dir h => rw [h] at htail; cases htail
      | dirCont h => rw [h] at htail; cases htail
      | file h => rw [h] at htail; cases htail
      | fileCont h => rw [h] at htail; cases htail
    · have hstep := itemWritten (cap - out.length) hread htail fun hw text ht => by
        have hlt := hfit hw text ht
        omega
      rw [sfsReadLocalFolderLoop]
      generalize sfsReadLocalFolderOutputOneItem folder (cap - out.length) ctx = r at hstep ⊢
      cases hstep with
      | skip hread' hlt =>
        dsimp only
        rw [if_neg (by decide), if_neg (by decide), if_pos rfl]
        exact ih hread' (by omega) hout fun hw => by cases hw
      | @row text rest ctx' m htexts hread' hlt hpos hshort =>
        subst htexts
        dsimp only
        rw [if_pos (by omega)]
        refine (ih hread' (by omega) ?_ fun hw => by cases hw).cons
        rw [List.length_append]
        omega
      | @full text rest ctx' m htexts hread' hle =>
        subst htexts
        dsimp only
        rw [if_neg (by decide), if_neg (by decide), if_neg (by decide), if_pos rfl]
        have hnil : out ++ ([] : List (List UInt8)).flatten = out := List.append_nil out
        have hnext : ChunkFilled folder path cap out ([] ++ text :: rest)
            (some (out ++ ([] : List (List UInt8)).flatten, false, ctx')) :=
          .next rfl hread' (by rwa [hnil]) (by rw [hnil]; omega)
        rwa [List.nil_append, hnil] at hnext

/-! ## EOF まで -/

theorem lastOffset_taken {cap : Nat} (taken : List Nat) : ∀ {offset : Nat},
    offset + taken.sum < cap →
    ∀ ns, lastOffset cap offset (taken ++ ns) = lastOffset cap (offset + taken.sum) ns := by
  induction taken with
  | nil => exact fun _ _ => rfl
  | cons n taken ih =>
    intro offset h ns
    rw [List.sum_cons] at h ⊢
    rw [List.cons_append, lastOffset, if_pos (by omega), ih (by omega), Nat.add_assoc]

theorem lastOffset_fit {cap offset : Nat} {ns : List Nat} (h : offset + ns.sum < cap) :
    lastOffset cap offset ns = offset + ns.sum := by
  have htaken := lastOffset_taken ns h []
  rwa [List.append_nil, lastOffset] at htaken

theorem lastOffset_full {cap offset n : Nat} {ns : List Nat} (hle : cap ≤ offset + n)
    (hlt : n < cap) :
    lastOffset cap offset (n :: ns) = lastOffset cap 0 (n :: ns) := by
  rw [lastOffset, if_neg (by omega), lastOffset, if_pos (by omega), Nat.zero_add]

/-- EOF まで読んだ結果。回数が増えても変わらない。 -/
def SfsFolderRead (folder : SfsFolder) (lengths : Nat → Nat) (i : Nat) (ctx : SfsFolderCtx)
    (out : List UInt8) : Prop :=
  ∃ n, ∀ m, n ≤ m → sfsReadLocalFolder folder lengths m i ctx = some out

/-- `out` に続けて `texts` と終わりを書いた結果。終わりが入れば揃い、入らなければ欠ける。 -/
structure ListingSent (out : List UInt8) (texts : List (List UInt8)) (all : List UInt8) : Prop where
  whole : lastOffset sfsPreferecBufferSize out.length
    (texts.map List.length) + sfsFolderPageTail.length
      < sfsPreferecBufferSize →
    all = out ++ texts.flatten ++ sfsFolderPageTail
  lost : sfsPreferecBufferSize
      ≤ lastOffset sfsPreferecBufferSize out.length
        (texts.map List.length) + sfsFolderPageTail.length →
    all.length < (out ++ texts.flatten ++ sfsFolderPageTail).length

theorem SfsFolderRead.next {lengths : Nat → Nat} {chunk out : List UInt8}
    (hcb : sfsReadLocalFolderCb folder (lengths i) ctx = some (chunk, false, ctx'))
    (h : SfsFolderRead folder lengths (i + 1) ctx' out) : SfsFolderRead folder lengths i ctx
      (chunk ++ out) := by
  obtain ⟨n, hn⟩ := h
  refine ⟨n + 1, fun m hm => ?_⟩
  obtain ⟨m, rfl⟩ := Nat.exists_eq_add_of_le' hm
  rw [← Nat.add_assoc, sfsReadLocalFolder, hcb]
  dsimp only
  rw [if_neg (by decide), hn (m + n) (by omega)]
  rfl

theorem SfsFolderRead.unique {lengths : Nat → Nat} {out out' : List UInt8}
    (h : SfsFolderRead folder lengths i ctx out)
      (h' : SfsFolderRead folder lengths i ctx out') : out = out' := by
  obtain ⟨n, hn⟩ := h
  obtain ⟨n', hn'⟩ := h'
  have heq := hn (n + n') (Nat.le_add_right _ _)
  rw [hn' (n + n') (Nat.le_add_left _ _)] at heq
  exact (Option.some.inj heq).symm

theorem SfsFolderRead.eof {lengths : Nat → Nat} {chunk : List UInt8}
    (hcb : sfsReadLocalFolderCb folder (lengths i) ctx = some (chunk, true, ctx')) :
    SfsFolderRead folder lengths i ctx chunk := by
  refine ⟨1, fun m hm => ?_⟩
  obtain ⟨m, rfl⟩ := Nat.exists_eq_add_of_le' hm
  rw [sfsReadLocalFolder, hcb]
  exact if_pos rfl

theorem sfsReadLocalFolderCb_eq (hlen : sfsPreferecBufferSize ≤ len) :
    sfsReadLocalFolderCb folder len ctx
      = sfsReadLocalFolderLoop folder sfsPreferecBufferSize (2 * folder.entries.length + 8)
        [] ctx := by
  unfold sfsReadLocalFolderCb
  rw [if_neg (by omega)]
  dsimp only
  congr 1
  split
  · rfl
  · omega

theorem SfsReading.steps_le {texts : List (List UInt8)} {n : Nat} {waiting : Bool}
    (h : SfsReading folder path ctx texts n waiting) : n ≤ 2 * folder.entries.length + 8 := by
  cases h <;> omega

/-- **一つの buffer を埋めた後から EOF まで。** 残りの行は `hrest` による。 -/
theorem ChunkFilled.sent {lengths : Nat → Nat} {out : List UInt8} {texts : List (List UInt8)}
    (hsmall : ∀ text ∈ texts, text.length < sfsPreferecBufferSize)
    (h : ChunkFilled folder path sfsPreferecBufferSize out texts
      (sfsReadLocalFolderCb folder (lengths i) ctx))
    (hrest : ∀ {ctx' taken text rest n}, texts = taken ++ text :: rest →
      sfsPreferecBufferSize ≤ (out ++ taken.flatten).length + text.length →
      SfsReading folder path ctx' (text :: rest) n true →
      ∃ all, SfsFolderRead folder lengths (i + 1) ctx' all ∧ ListingSent [] (text :: rest) all) :
    ∃ all, SfsFolderRead folder lengths i ctx all ∧ ListingSent out texts all := by
  generalize hcb : sfsReadLocalFolderCb folder (lengths i) ctx = r at h
  have hpos := sfsFolderPageTail_pos
  cases h with
  | whole hlt =>
    refine ⟨_, .eof hcb, fun _ => rfl, fun hle => ?_⟩
    rw [List.length_append, List.length_flatten] at hlt
    rw [lastOffset_fit (by omega)] at hle
    omega
  | lost hlt hle =>
    refine ⟨_, .eof hcb, fun hfit => ?_, fun _ => ?_⟩
    · rw [List.length_append, List.length_flatten] at hlt hle
      rw [lastOffset_fit hlt] at hfit
      omega
    · rw [List.length_append, List.length_nil]
      omega
  | @next taken text rest ctx' n htexts hread hlt hle =>
    subst htexts
    obtain ⟨all, hall, hsent⟩ := hrest rfl hle hread
    -- `text` は次の buffer の初めに書く
    have hoffset : lastOffset sfsPreferecBufferSize out.length
      ((taken ++ text :: rest).map List.length)
        = lastOffset sfsPreferecBufferSize 0 ((text :: rest).map List.length) := by
      rw [List.length_append, List.length_flatten] at hlt hle
      rw [List.map_append, List.map_cons, lastOffset_taken _ hlt,
        lastOffset_full hle (hsmall text (by simp))]
    have hflat : out ++ (taken ++ text :: rest).flatten ++ sfsFolderPageTail
        = out ++ taken.flatten ++ ((text :: rest).flatten ++ sfsFolderPageTail) := by
      rw [List.flatten_append]
      simp only [List.append_assoc]
    refine ⟨_, .next hcb hall, fun hfit => ?_, fun hfull => ?_⟩
    · rw [hoffset] at hfit
      rw [hflat, hsent.whole hfit]
      rfl
    · rw [hoffset] at hfull
      have hshort := hsent.lost hfull
      rw [List.nil_append] at hshort
      have hlen : ∀ v, (out ++ taken.flatten ++ v).length
        = (out ++ taken.flatten).length + v.length :=
        fun v => List.length_append
      rw [hflat, hlen, hlen]
      omega

theorem SfsReading.sent {lengths : Nat → Nat}
    (hlengths : ∀ i, sfsPreferecBufferSize ≤ lengths i) :
    ∀ (k : Nat) {texts : List (List UInt8)} {n i : Nat} {ctx : SfsFolderCtx}, texts.length ≤ k →
      (∀ text ∈ texts, text.length < sfsPreferecBufferSize) →
        SfsReading folder path ctx texts n true →
      ∃ all, SfsFolderRead folder lengths i ctx all ∧ ListingSent [] texts all := by
  intro k
  induction k with
  | zero =>
    intro texts n i ctx hk _ hread
    cases hread with
    | dirCont => cases hk
    | fileCont => cases hk
  | succ k ih =>
    intro texts n i ctx hk hsmall hread
    have hfilled : ChunkFilled folder path sfsPreferecBufferSize [] texts
        (sfsReadLocalFolderCb folder (lengths i) ctx) := by
      rw [sfsReadLocalFolderCb_eq (hlengths i)]
      refine chunkFilled _ hread hread.steps_le (by decide) fun _ text htext => ?_
      rw [List.length_nil, Nat.zero_add]
      exact hsmall text (List.mem_of_mem_head? htext)
    refine hfilled.sent hsmall fun {ctx' taken text rest m} htexts hle hread' => ?_
    subst htexts
    -- 初めの行は入ったので、残りは少ない
    have htaken : taken ≠ [] := by
      rintro rfl
      have hlt := hsmall text (by simp)
      rw [List.flatten_nil, List.append_nil, List.length_nil] at hle
      omega
    have hpos := List.length_pos_iff.mpr htaken
    rw [List.length_append] at hk
    exact ih (by omega) (fun t ht => hsmall t (List.mem_append_right taken ht)) hread'

/-! ## 行の長さ -/

theorem sfsRow_length (c h n : List UInt8) : (sfsRow c h n).length
    = c.length + h.length + n.length + 35 := by
  have h₁ : (ascii "<tr><td ").length = 8 := ascii_length _
  have h₂ : (ascii "><a href=\"").length = 10 := ascii_length _
  have h₃ : (ascii "\">").length = 2 := ascii_length _
  have h₄ : (ascii "</a></td></tr>\n").length = 15 := ascii_length _
  unfold sfsRow
  simp only [List.length_append, h₁, h₂, h₃, h₄]
  omega

theorem sfsClassStr_length (i : Nat) : (sfsClassStr i).length = 11 := by
  unfold sfsClassStr
  split
  · exact ascii_length _
  · exact ascii_length _

theorem le_sfsHeadText (folder : SfsFolder) (path : List UInt8) :
    2 * (folder.pathHead.bytes.length + path.length) ≤ (sfsHeadText folder path).length := by
  unfold sfsHeadText
  split
  · simp only [sfsFolderPageHead2, sfsPageStyle, List.length_append]
    omega
  · simp only [sfsFolderPageHead, sfsPageStyle, List.length_append]
    omega

theorem sfsEntryRow_le (folder : SfsFolder) (path suffix : List UInt8)
    (hsuffix : suffix.length ≤ 1) (i : Nat)
    (ent : SfsDirent) :
    (sfsEntryRow folder path suffix i ent).length ≤ folder.pathHead.bytes.length + path.length +
      600 := by
  have hshort := ent.short
  unfold sfsEntryRow
  dsimp only
  rw [sfsRow_length, sfsClassStr_length]
  split
  · simp only [List.length_append, List.length_singleton]
    omega
  · simp only [List.length_append]
    omega

theorem mem_sfsRows {text : List UInt8} (h : text ∈ sfsRows folder path dType suffix i ents) :
    ∃ k ent, text = sfsEntryRow folder path suffix k ent := by
  obtain ⟨k, hk, rfl⟩ := List.mem_mapIdx.mp h
  exact ⟨_, _, rfl⟩

theorem sfsDirRows_small (hhead : (sfsHeadText folder path).length < sfsPreferecBufferSize) :
    ∀ text ∈ sfsDirRows folder path i ents, text.length < sfsPreferecBufferSize := by
  have hle := le_sfsHeadText folder path
  have hsize : sfsPreferecBufferSize = 8192 := rfl
  intro text htext
  rcases List.mem_append.mp htext with hdir | hfile
  · obtain ⟨k, ent, rfl⟩ := mem_sfsRows hdir
    have hrow := sfsEntryRow_le folder path [47] le_rfl k ent
    omega
  · obtain ⟨k, ent, rfl⟩ := mem_sfsRows hfile
    have hrow := sfsEntryRow_le folder path [] (Nat.zero_le 1) k ent
    omega

/-! ## 頭から -/

theorem sfsLocalFolderOutputGoUpper_row (hnul : 0 ∉ path) (hback : 92 ∉ path) (hne : path ≠ [])
    (hpath : ctx.path = path) (hlt : (sfsUpperRow folder path).flatten.length < len) :
    sfsLocalFolderOutputGoUpper folder len ctx
      = (((sfsUpperRow folder path).flatten.length : Int), (sfsUpperRow folder path).flatten,
          { ctx with itemIdx := ctx.itemIdx + 1 }) := by
  subst hpath
  have hlen : ¬ctx.path.length = 0 := mt List.length_eq_zero_iff.mp hne
  have hfind : findLastSlash ctx.path = findLastSlash2 ctx.path := by
    have hself := cstring_append hnul []
    rw [List.append_nil, cstring_nil, List.append_nil] at hself
    unfold findLastSlash
    rw [hself]
  -- 切る所は `/` である
  have hrestore : ∀ k : Nat, findLastSlash ctx.path = k →
      cstring (ctx.path.set k 0) = ctx.path.take k ∧ (ctx.path.set k 0).set k 47 = ctx.path := by
    intro k hk
    rw [hfind] at hk
    rcases findLastSlash2_cases ctx.path with ⟨hnone, -⟩ | ⟨u, c, w, heq, hsome, hc, -⟩
    · omega
    · obtain rfl : k = u.length := by omega
      have hslash : c = 47 := by
        have hcases : c = 47 ∨ c = 92 := by simpa [isSlash] using hc
        refine hcases.resolve_right fun h92 => hback ?_
        rw [heq, ← h92]
        exact List.mem_append_right u List.mem_cons_self
      have hu : 0 ∉ u := fun hm => hnul (by rw [heq]; exact List.mem_append_left _ hm)
      rw [heq, hslash]
      simp only [List.set_append_right _ _ le_rfl, Nat.sub_self, List.set_cons_zero,
        List.take_left, and_true]
      exact cstring_append_zero hu w
  unfold sfsUpperRow at hlt ⊢
  rw [if_neg hlen] at hlt ⊢
  dsimp only at hlt ⊢
  rw [List.flatten_singleton] at hlt ⊢
  have hpos := sfsRow_pos
  unfold sfsLocalFolderOutputGoUpper
  rw [if_neg hlen]
  dsimp only
  by_cases hroot : findLastSlash ctx.path ≤ 0
  · simp only [if_pos hroot, List.append_nil] at hlt ⊢
    rw [if_neg fun ht => absurd ((truncated_eq_true_iff (hpos _ _ _)).mp ht) (Nat.not_le.mpr hlt)]
  · simp only [if_neg hroot] at hlt ⊢
    obtain ⟨hcut, hback'⟩ := hrestore (findLastSlash ctx.path).toNat (by omega)
    rw [hcut, hback', List.append_assoc,
      if_neg fun ht => absurd ((truncated_eq_true_iff (hpos _ _ _)).mp ht) (Nat.not_le.mpr hlt)]

theorem sfsHeadText_pos (folder : SfsFolder) (path : List UInt8) : 0 <
    (sfsHeadText folder path).length := by
  have hlen : (ascii "<html><head><title>").length = 19 := ascii_length _
  unfold sfsHeadText
  split
  · simp only [sfsFolderPageHead2, sfsPageStyle, List.length_append]
    omega
  · simp only [sfsFolderPageHead, sfsPageStyle, List.length_append]
    omega

theorem sfsReadLocalFolderLoop_start (hnul : 0 ∉ path) (hback : 92 ∉ path) {cap : Nat}
    (hfirst : (sfsHeadText folder path).length + (sfsUpperRow folder path).flatten.length < cap)
      (n : Nat) :
    ∃ ctx, SfsReading folder path ctx
        (sfsDirRows folder path (sfsUpperRow folder path).length folder.entries)
        (folder.entries.length + folder.entries.length + 4) false ∧
      sfsReadLocalFolderLoop folder cap (n + 2) [] (sfsFolderStart folder path)
        = sfsReadLocalFolderLoop folder cap n
            (sfsHeadText folder path ++ (sfsUpperRow folder path).flatten) ctx := by
  have hpos := sfsHeadText_pos folder path
  -- 頭
  have hhead : sfsReadLocalFolderLoop folder cap (n + 2) [] (sfsFolderStart folder path)
      = sfsReadLocalFolderLoop folder cap (n + 1) (sfsHeadText folder path)
          { sfsFolderStart folder path with dirOutputStat := .goUpper } := by
    rw [sfsReadLocalFolderLoop, sfsReadLocalFolderOutputOneItem, sfsFolderStart]
    dsimp only
    rw [if_neg fun ht => absurd ((truncated_eq_true_iff hpos).mp ht)
      (by rw [List.length_nil]; omega)]
    dsimp only
    rw [if_pos (by omega), List.nil_append]
  rw [hhead]
  by_cases hne : path = []
  · -- 上は無い
    subst hne
    refine ⟨{ sfsFolderStart folder [] with dirOutputStat := .dir }, .dir rfl rfl le_rfl, ?_⟩
    have hupper : sfsUpperRow folder [] = [] := rfl
    rw [hupper, List.flatten_nil, List.append_nil, sfsReadLocalFolderLoop]
    rfl
  · have hlen : ¬path.length = 0 := mt List.length_eq_zero_iff.mp hne
    have hupperPos : 0 < (sfsUpperRow folder path).flatten.length := by
      unfold sfsUpperRow
      rw [if_neg hlen, List.flatten_singleton]
      exact sfsRow_pos _ _ _
    have hrows : (sfsUpperRow folder path).length = 1 := by
      unfold sfsUpperRow
      rw [if_neg hlen]
      rfl
    refine ⟨{ sfsFolderStart folder path with
      dirOutputStat := .dir
      itemIdx := 1 }, ?_, ?_⟩
    · rw [hrows]
      exact .dir rfl rfl le_rfl
    · have hstart : ({ sfsFolderStart folder path with dirOutputStat := .goUpper } :
      SfsFolderCtx).path = path := rfl
      have hlt : (sfsUpperRow folder path).flatten.length < cap -
        (sfsHeadText folder path).length := by omega
      have hwritten : ¬((sfsUpperRow folder path).flatten.length : Int) = 0 := by omega
      have hfits : ¬(((sfsUpperRow folder path).flatten.length : Int) < 0 ∨
          ((cap - (sfsHeadText folder path).length : Nat) : Int) ≤
            (sfsUpperRow folder path).flatten.length) := by
        omega
      rw [sfsReadLocalFolderLoop, sfsReadLocalFolderOutputOneItem]
      dsimp only
      rw [sfsLocalFolderOutputGoUpper_row hnul hback hne hstart hlt]
      dsimp only
      rw [if_neg hwritten, if_neg hfits]
      dsimp only
      rw [if_pos (by omega)]
      rfl

theorem sfsListing_sent (hnul : 0 ∉ path) (hback : 92 ∉ path) {lengths : Nat → Nat}
    (hlengths : ∀ i, sfsPreferecBufferSize ≤ lengths i)
    (hfirst : (sfsHeadText folder path).length + (sfsUpperRow folder path).flatten.length
      < sfsPreferecBufferSize) :
    ∃ all, SfsFolderRead folder lengths 0 (sfsFolderStart folder path) all ∧
      ListingSent [] (sfsListing folder path) all := by
  obtain ⟨ctx, hread, hstart⟩ := sfsReadLocalFolderLoop_start hnul hback hfirst
    (2 * folder.entries.length + 6)
  have hout : (sfsHeadText folder path ++ (sfsUpperRow folder path).flatten).length <
    sfsPreferecBufferSize := by
    rw [List.length_append]
    exact hfirst
  have hfilled : ChunkFilled folder path sfsPreferecBufferSize
      (sfsHeadText folder path ++ (sfsUpperRow folder path).flatten)
      (sfsDirRows folder path (sfsUpperRow folder path).length folder.entries)
      (sfsReadLocalFolderCb folder (lengths 0) (sfsFolderStart folder path)) := by
    rw [sfsReadLocalFolderCb_eq (hlengths 0), hstart]
    exact chunkFilled _ hread (by omega) hout fun hw => by cases hw
  have hsmall : ∀ text ∈ sfsDirRows folder path (sfsUpperRow folder path).length folder.entries,
      text.length < sfsPreferecBufferSize :=
    sfsDirRows_small (by omega)
  obtain ⟨all, hall, hsent⟩ := hfilled.sent hsmall fun
    {ctx' taken text rest m} htexts _ hread' =>
    hread'.sent hlengths _ le_rfl fun t ht => hsmall t
      (by rw [htexts]; exact List.mem_append_right taken ht)
  refine ⟨all, hall, ?_⟩
  -- 頭と上への link は、初めの buffer に入っている
  have hoffset : lastOffset sfsPreferecBufferSize 0 ((sfsListing folder path).map List.length)
      = lastOffset sfsPreferecBufferSize
          (sfsHeadText folder path ++ (sfsUpperRow folder path).flatten).length
          ((sfsDirRows folder path (sfsUpperRow folder path).length folder.entries).map
            List.length) := by
    have hfit : 0 + ((sfsHeadText folder path :: sfsUpperRow folder path).map List.length).sum
        < sfsPreferecBufferSize := by
      rw [← List.length_flatten, List.flatten_cons, List.length_append]
      omega
    have htaken := lastOffset_taken _ hfit
      ((sfsDirRows folder path (sfsUpperRow folder path).length folder.entries).map List.length)
    rwa [← List.map_append, ← List.length_flatten, List.flatten_cons, Nat.zero_add] at htaken
  have hflat : ([] : List UInt8) ++ (sfsListing folder path).flatten
      = sfsHeadText folder path ++ (sfsUpperRow folder path).flatten ++
        (sfsDirRows folder path (sfsUpperRow folder path).length folder.entries).flatten := by
    unfold sfsListing
    rw [List.nil_append, List.flatten_append, List.flatten_cons]
  refine ⟨fun h => ?_, fun h => ?_⟩
  · rw [hflat]
    exact hsent.whole (by rwa [List.length_nil, hoffset] at h)
  · rw [hflat]
    exact hsent.lost (by rwa [List.length_nil, hoffset] at h)

/--
**頭と上への link が初めの buffer に入るなら、送った byte が、頭、上への link、folder の行、file の行、終わりを順に
続けたものであるのは、最後の buffer の残りに終わりが入るとき、そのときに限る。** 入らなければ、最後の buffer を捨てる。
-/
theorem folder_listing_iff {rel : CStr} (hback : 92 ∉ rel.bytes) {lengths : Nat → Nat}
    (hlengths : ∀ i, sfsPreferecBufferSize ≤ lengths i)
    (hfirst : (sfsHeadText folder rel.bytes).length + (sfsUpperRow folder rel.bytes).flatten.length
      < sfsPreferecBufferSize) :
    ∃ all, SfsFolderRead folder lengths 0 (sfsFolderStart folder rel.bytes) all ∧
      (all = (sfsListing folder rel.bytes).flatten ++ sfsFolderPageTail ↔
        lastOffset sfsPreferecBufferSize 0 ((sfsListing folder rel.bytes).map List.length) +
          sfsFolderPageTail.length < sfsPreferecBufferSize) := by
  have hnul : 0 ∉ rel.bytes := rel.property
  obtain ⟨all, hall, hsent⟩ := sfsListing_sent hnul hback hlengths hfirst
  refine ⟨all, hall, fun heq => ?_, hsent.whole⟩
  by_contra hno
  have hlost := hsent.lost (Nat.le_of_not_lt hno)
  rw [heq] at hlost
  exact absurd hlost (lt_irrefl _)

end

/-! ## 例 -/

def SfsDirent.sample (n : Fin 256) : SfsDirent where
  dName := ⟨List.replicate n 97, fun h => by cases List.eq_of_mem_replicate h⟩
  dType := .dir
  short := by
    have hn := n.isLt
    change (List.replicate (n : Nat) (97 : UInt8)).length ≤ 255
    rw [List.length_replicate]
    omega

def SfsFolder.sample (ns : List (Fin 256)) : SfsFolder where
  flags := 1
  pathHead := .ofBytes [47]
  entries := ns.map SfsDirent.sample

theorem sfsFolderPageHead_length (place : List UInt8) :
    (sfsFolderPageHead place).length = 2 * place.length + 354 := by
  have h₁ : (ascii "<html><head><title>").length = 19 := ascii_length _
  have h₂ : (ascii "</title>").length = 8 := ascii_length _
  have h₃ : (ascii "<meta http-equiv=\"Content-Type\" content=\"text/html; charset=utf-8\">").length = 67 :=
    ascii_length _
  have h₄ : (ascii "<style type=\"text/css\">").length = 23 := ascii_length _
  have h₅ : (ascii "body\x7bfont-family:\"Courier New\", Courier, monospace;padding:2px;\x7d").length = 64 :=
    ascii_length _
  have h₆ : (ascii "td\x7bpadding-left:5px;padding-right:5px\x7d").length = 38 := ascii_length _
  have h₇ : (ascii ".tdo\x7bbackground-color:#f0f0ff\x7d").length = 30 := ascii_length _
  have h₈ : (ascii ".tde\x7bbackground-color:#f9f9ff\x7d").length = 30 := ascii_length _
  have h₉ : (ascii "</style>").length = 8 := ascii_length _
  have h₁₀ : (ascii "</head><body><table><tr><td>Index of: ").length = 38 := ascii_length _
  have h₁₁ : (ascii "</td></tr></table><hr><table>").length = 29 := ascii_length _
  unfold sfsFolderPageHead sfsPageStyle
  simp only [List.length_append, h₁, h₂, h₃, h₄, h₅, h₆, h₇, h₈, h₉, h₁₀, h₁₁]
  omega

theorem sample_dirRows (folder : SfsFolder) (ns : List (Fin 256)) : ∀ i,
    (sfsRows folder [] .dir [47] i (ns.map SfsDirent.sample)).map List.length
      = ns.map fun n : Fin 256 => 2 * (n : Nat) + folder.pathHead.bytes.length + 47 := by
  induction ns with
  | nil => exact fun _ => rfl
  | cons n ns ih =>
    intro i
    have hname : (SfsDirent.sample n).dName.bytes = List.replicate n 97 := rfl
    have hshown : (SfsDirent.sample n).shown .dir = true := by
      refine shown_iff.mpr ⟨rfl, ?_⟩
      rw [hname]
      cases (n : Nat) with
      | zero => simp
      | succ m => simp [List.replicate_succ]
    have hrow : (sfsEntryRow folder [] [47] i (SfsDirent.sample n)).length
        = 2 * (n : Nat) + folder.pathHead.bytes.length + 47 := by
      unfold sfsEntryRow
      simp only [sfsRow_length, sfsClassStr_length, hname, List.length_nil, List.length_append,
        List.length_replicate, List.length_singleton, ne_eq, not_true_eq_false, if_false]
      omega
    rw [List.map_cons, sfsRows_cons_shown hshown, List.map_cons, ih, hrow, List.map_cons]

theorem sample_fileRows (folder : SfsFolder) (ns : List (Fin 256)) (i : Nat) :
    sfsFileRows folder [] i (ns.map SfsDirent.sample) = [] := by
  unfold sfsFileRows
  induction ns with
  | nil => rfl
  | cons n ns ih =>
    have hhidden : ¬(SfsDirent.sample n).shown .reg = true := fun h => by cases (shown_iff.mp h).1
    rw [List.map_cons, sfsRows_cons_hidden hhidden, ih]

theorem sample_head (ns : List (Fin 256)) : (sfsHeadText (.sample ns) []).length = 356 := by
  have hzero : (1 : UInt32) &&& sfsFlagsAllowUpload = 0 := by decide
  have hflags : ¬(SfsFolder.sample ns).flags &&& sfsFlagsAllowUpload ≠ 0 := not_not.mpr hzero
  unfold sfsHeadText
  rw [if_neg hflags, sfsFolderPageHead_length]
  rfl

theorem sample_lengths (ns : List (Fin 256)) :
    (sfsListing (.sample ns) []).map List.length
      = 356 :: ns.map fun n : Fin 256 => 2 * (n : Nat) + 48 := by
  have hupper : sfsUpperRow (.sample ns) [] = [] := rfl
  have hentries : (SfsFolder.sample ns).entries = ns.map SfsDirent.sample := rfl
  unfold sfsListing sfsDirRows
  dsimp only
  rw [hupper, hentries, sample_fileRows, List.append_nil, List.singleton_append, List.map_cons,
    sample_head,
    sample_dirRows]
  rfl

theorem sample_first (ns : List (Fin 256)) :
    (sfsHeadText (.sample ns) CStr.empty.bytes).length +
      (sfsUpperRow (.sample ns) CStr.empty.bytes).flatten.length < sfsPreferecBufferSize := by
  have hpath : CStr.empty.bytes = [] := rfl
  have hupper : sfsUpperRow (.sample ns) [] = [] := rfl
  rw [hpath, hupper, sample_head]
  decide

/-- 8192 byte ずつ渡す。 -/
theorem folder_listing_iff_sample :
    ∃ all, SfsFolderRead (.sample [1]) (fun _ => 8192) 0
      (sfsFolderStart (.sample [1]) CStr.empty.bytes) all ∧
      all = (sfsListing (.sample [1]) CStr.empty.bytes).flatten ++ sfsFolderPageTail := by
  have hback : 92 ∉ CStr.empty.bytes := List.not_mem_nil
  have hlengths : ∀ i, sfsPreferecBufferSize ≤ (fun _ : Nat => 8192) i := fun _ => le_rfl
  obtain ⟨all, hall, hiff⟩ := folder_listing_iff hback hlengths (sample_first [1])
  have hlengths : ((sfsListing (.sample [1]) CStr.empty.bytes).map List.length)
    = [356, 50] := sample_lengths [1]
  refine ⟨all, hall, hiff.mpr ?_⟩
  rw [hlengths]
  decide

/-- 最後の buffer に 8174 byte 書く directory の列。 -/
def nearlyFull : List (Fin 256) := [255, 254, 253, 252, 251, 250, 249, 248, 247, 246, 245, 244,
    243, 242, 70]

/-- 終わりが入らなければ、それまでの行も送らない。 -/
theorem folder_listing_lost :
    ¬∀ (folder : SfsFolder) (rel : CStr) (lengths : Nat → Nat), 92 ∉ rel.bytes →
      (∀ i, sfsPreferecBufferSize ≤ lengths i) →
      (sfsHeadText folder rel.bytes).length + (sfsUpperRow folder rel.bytes).flatten.length
        < sfsPreferecBufferSize →
      SfsFolderRead folder lengths 0 (sfsFolderStart folder rel.bytes)
        ((sfsListing folder rel.bytes).flatten ++ sfsFolderPageTail) := by
  intro hall
  have hback : 92 ∉ CStr.empty.bytes := List.not_mem_nil
  have hlengths : ∀ i, sfsPreferecBufferSize ≤ (fun _ : Nat => 8192) i := fun _ => le_rfl
  have hfirst := sample_first nearlyFull
  have hnul : 0 ∉ CStr.empty.bytes := List.not_mem_nil
  obtain ⟨all, hread, hsent⟩ := sfsListing_sent hnul hback hlengths hfirst
  have hlens : ((sfsListing (.sample nearlyFull) CStr.empty.bytes).map List.length)
      = 356 :: nearlyFull.map fun n : Fin 256 => 2 * (n : Nat) + 48 := sample_lengths nearlyFull
  have hlost := hsent.lost (by rw [hlens]; decide)
  have hwhole := hall (.sample nearlyFull) CStr.empty (fun _ => 8192) hback hlengths hfirst
  rw [hread.unique hwhole] at hlost
  exact absurd hlost (lt_irrefl _)

end Esq
