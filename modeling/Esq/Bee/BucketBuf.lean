import Esq.Bee.CanonicalName
import Esq.Libs.Memory

/-!
# bucket の `buf`

`bee/bucket.c` の四つの構築子が `malloc` する長さと、`bucket->buf` に書く byte。長さはどれも手で足した
和で、写す長さとは別に書かれている。`range_map_name` と `hash_str` の位置も、また別の和である。

位置はいつも正しい（`BucketRequest.points`）。長さが足りないのは
`bee_open_remote_patch_bucket_file` だけで、受け付けた名前のすべてで終わりの NUL が領域の外に出る。
-/

namespace Esq

open Infra

/-! ## 続けて写す -/

structure BufWrite where
  offset : Nat
  bytes : List UInt8

namespace BufWrite

def layout : Nat → List (List UInt8) → List BufWrite
  | _, [] => []
  | pos, p :: ps => ⟨pos, p⟩ :: layout (pos + p.length) ps

def all (ws : List BufWrite) (buf : List UInt8) : List UInt8 :=
  ws.foldl (fun buf w => splice buf w.offset w.bytes) buf

theorem all_layout (ps : List (List UInt8)) : ∀ done rest : List UInt8,
    all (layout done.length ps) (done ++ rest)
      = done ++ (ps.flatten ++ rest.drop ps.flatten.length) := by
  induction ps with
  | nil => exact fun done rest => rfl
  | cons p ps ih =>
    intro done rest
    show all (layout (done.length + p.length) ps) (splice (done ++ rest) done.length p) = _
    rw [splice_append, ← List.append_assoc, ← List.length_append, ih, List.drop_drop,
      List.flatten_cons, List.length_append, List.append_assoc, List.append_assoc]

theorem layout_fits_iff {size : Nat} (ps : List (List UInt8)) : ∀ {pos : Nat}, pos ≤ size →
    ((∀ w ∈ layout pos ps, w.offset + w.bytes.length ≤ size) ↔
      pos + ps.flatten.length ≤ size) := by
  induction ps with
  | nil =>
    intro pos hpos
    exact iff_of_true (fun _ hw => absurd hw List.not_mem_nil) hpos
  | cons p ps ih =>
    intro pos hpos
    rw [layout, List.forall_mem_cons, List.flatten_cons, List.length_append, ← Nat.add_assoc]
    show pos + p.length ≤ size ∧ _ ↔ _
    constructor
    · rintro ⟨hp, hps⟩
      exact (ih hp).mp hps
    · intro h
      have hp : pos + p.length ≤ size := by omega
      exact ⟨hp, (ih hp).mpr h⟩

end BufWrite

/-! ## 四つの構築子 -/

/-- `malloc` した bucket の `buf` と、その中を指す欄。 -/
structure BucketBuf where
  /-- `malloc_len - sizeof(bee_bucket_t)` -/
  size : Nat
  writes : List BufWrite
  rangeMapNameAt : Nat
  rangeMapNameLength : Nat
  hashStrAt : Nat
  hashStrLength : Nat
  ip : Nat := 0
  port : Int := 0

namespace BucketBuf

def content (s : BucketBuf) : List UInt8 := BufWrite.all s.writes (List.replicate s.size 0)

def bucket (s : BucketBuf) : BeeBucket :=
  .ofBuf s.content s.rangeMapNameAt s.rangeMapNameLength s.hashStrAt s.hashStrLength s.ip s.port

/-- 終わりの NUL も含めて、書き込みが領域の中にある。 -/
def Fits (s : BucketBuf) : Prop := ∀ w ∈ s.writes, w.offset + w.bytes.length ≤ s.size

/-- 欄が、ちょうど map の名前と prefix の桁を指す。 -/
structure Points (s : BucketBuf) (name digits : List UInt8) : Prop where
  name : s.bucket.rangeMapName = name
  digits : s.bucket.hashStr = digits

end BucketBuf

/-- folder の file から作る bucket の `buf`。`dot` は最後の `.`、`hashDot` は hash の前の `.` の位置である。 -/
def fileBucketBuf (folder dName : List UInt8) (d0 hashDot dot size hashStrLen : Nat) (ip : Nat)
    (port : Int) : BucketBuf where
  size := size
  writes := [⟨0, folder⟩, ⟨folder.length, [47]⟩,
    ⟨folder.length + 1, (dName ++ [0]).take (dot + 5)⟩]
  rangeMapNameAt := folder.length + 1
  rangeMapNameLength := d0
  hashStrAt := folder.length + 1 + hashDot + 1
  hashStrLength := hashStrLen
  ip := ip
  port := port

def localBucketBuf (folder dName : List UInt8) (d0 d1 d2 : Nat) : Option BucketBuf := do
  let _ ← localBucketFile folder dName d0 d1 d2
  let hashStrLen ← hashBetweenDots dName d0 d1
  some (fileBucketBuf folder dName d0 d0 d2 (folder.length + 1 + d2 + 5) hashStrLen 0 0)

/-- `bee_open_remote_patch_bucket_file` の `buf`。`malloc_len` に足すのは 5 でなく 4 である。 -/
def remotePatchBucketBuf (folder dName : List UInt8) (d0 d4 d5 d6 : Nat) : Option BucketBuf := do
  let (b, _) ← remotePatchBucketFile folder dName d0 d4 d5 d6
  let hashStrLen ← hashBetweenDots dName d5 d6
  some (fileBucketBuf folder dName d0 d5 d6 (folder.length + 1 + d6 + 4) hashStrLen b.ip b.port)

/-- `bee_add_disk_bucket_by_config` の `buf`。`snprintf` が足りなければ "design error" である。 -/
def configBucketBuf (c : DiskBucketConfig) (k : ConfigChecked) : Option BucketBuf :=
  let (b, size) := configBucket c k
  if b.buf.length ≥ size then none
  else some {
    size
    writes := [⟨0, b.buf.take (size - 1) ++ [0]⟩]
    rangeMapNameAt := k.folder.length + 1
    rangeMapNameLength := c.rangeMap.length
    hashStrAt := match k.remote with
      | none => k.folder.length + 1 + c.rangeMap.length + 1
      | some _ => b.buf.length - 5 - k.hashLen
    hashStrLength := k.hashLen
    ip := b.ip
    port := b.port }

def memBucketBuf (rangeMapName hash : List UInt8) (hashLen : Nat) : BucketBuf where
  size := rangeMapName.length + 1 + hash.length + 3
  writes := [⟨0, rangeMapName⟩, ⟨rangeMapName.length, [46]⟩, ⟨rangeMapName.length + 1, hash⟩,
    ⟨rangeMapName.length + 1 + hash.length, [46, 37, 0]⟩]
  rangeMapNameAt := 0
  rangeMapNameLength := rangeMapName.length
  hashStrAt := rangeMapName.length + 1
  hashStrLength := hashLen

/-! ## 呼び出し -/

inductive BucketRequest where
  /-- `bee_open_buckets_from_folder` が見つけた file -/
  | file (folder : List UInt8) (dName : CStr)
  /-- `bee_add_disk_bucket_by_config` -/
  | config (c : DiskBucketConfig)
  /-- `bee_shift_mem_bucket` -/
  | mem (rangeMapName hash : List UInt8)

namespace BucketRequest

def buf : BucketRequest → Option BucketBuf
  | file folder dName =>
    if folder.length > maxDiskBucketFolder then none
    else
      let folder := if folder = [] then [46] else folder
      match dotsOf dName.bytes with
      | [d0, d1, d2] => localBucketBuf folder dName.bytes d0 d1 d2
      | [d0, _, _, _, d4, d5, d6] => remotePatchBucketBuf folder dName.bytes d0 d4 d5 d6
      | _ => none
  | config c =>
    match checkConfig c with
    | .error _ => none
    | .ok k => configBucketBuf c k
  | mem rangeMapName hash =>
    match checkNameHash rangeMapName hash "invalid hash string (mem bucket)"
        "invalid hash string format (mem bucket)" with
    | .error _ => none
    | .ok hashLen => some (memBucketBuf rangeMapName hash hashLen)

/-- map の名前と、末尾の `x` を除いた prefix の桁。file では名前を `.` で区切って読む。 -/
def fields : BucketRequest → List UInt8 × List UInt8
  | file _ dName =>
    match dName.bytes.splitOn 46 with
    | [name, hash, _, _] => (name, hash.dropLast)
    | [name, _, _, _, _, _, hash, _] => (name, hash.dropLast)
    | _ => ([], [])
  | config c => (c.rangeMap, c.hash.dropLast)
  | mem rangeMapName hash => (rangeMapName, hash.dropLast)

/-- `bee_open_remote_patch_bucket_file` に渡る file である。 -/
def RemotePatch : BucketRequest → Prop
  | file _ dName => (dotsOf dName.bytes).length = 7
  | _ => False

instance : DecidablePred RemotePatch
  | file _ dName => inferInstanceAs (Decidable ((dotsOf dName.bytes).length = 7))
  | config _ => inferInstanceAs (Decidable False)
  | mem _ _ => inferInstanceAs (Decidable False)

end BucketRequest

/-! ## 欄の位置 -/

theorem BucketBuf.points_of_content {s : BucketBuf} {text tail : List UInt8}
    (hc : s.content = text ++ tail) (hname : s.rangeMapNameAt + s.rangeMapNameLength ≤ text.length)
    (hhash : s.hashStrAt + s.hashStrLength ≤ text.length) :
    s.Points ((text.drop s.rangeMapNameAt).take s.rangeMapNameLength)
      ((text.drop s.hashStrAt).take s.hashStrLength) := by
  have hslice : ∀ {i n : Nat}, i + n ≤ text.length →
      (s.content.drop i).take n = (text.drop i).take n := by
    intro i n h
    rw [hc, List.drop_append_of_le_length (by omega),
      List.take_append_of_le_length (by rw [List.length_drop]; omega)]
  exact ⟨hslice hname, hslice hhash⟩

theorem BucketBuf.content_layout {s : BucketBuf} {ps : List (List UInt8)}
    (h : s.writes = BufWrite.layout 0 ps) :
    ∃ tail, s.content = ps.flatten ++ tail := by
  refine ⟨(List.replicate s.size 0).drop ps.flatten.length, ?_⟩
  unfold content
  rw [h]
  exact BufWrite.all_layout ps [] _

theorem BucketBuf.fits_layout {s : BucketBuf} {ps : List (List UInt8)}
    (h : s.writes = BufWrite.layout 0 ps) : s.Fits ↔ ps.flatten.length ≤ s.size := by
  unfold Fits
  rw [h, BufWrite.layout_fits_iff ps (Nat.zero_le _), Nat.zero_add]

section

variable {folder dName : List UInt8} {d0 hashDot dot size hashStrLen ip : Nat} {port : Int}

theorem fileBucketBuf_writes :
    (fileBucketBuf folder dName d0 hashDot dot size hashStrLen ip port).writes
      = BufWrite.layout 0 [folder, [47], (dName ++ [0]).take (dot + 5)] := by
  simp [fileBucketBuf, BufWrite.layout]

theorem isKct_length (h0 : 0 ∉ dName) (h : isKct dName dot = true) : dName.length = dot + 4 := by
  unfold isKct at h
  simp only [Bool.and_eq_true, decide_eq_true_eq] at h
  obtain ⟨⟨-, ht⟩, hend⟩ := h
  have hlow : dot + 3 < dName.length := by
    by_contra hle
    rw [List.getD_eq_default _ _ (by omega)] at ht
    cases ht
  have hhigh : ¬ dot + 4 < dName.length := by
    intro hlt
    rw [List.getD_eq_getElem _ _ hlt] at hend
    exact h0 (hend ▸ List.getElem_mem hlt)
  omega

theorem hashBetweenDots_le {d1 d2 len : Nat} (h : hashBetweenDots dName d1 d2 = some len) :
    d1 + 1 + len ≤ dName.length := by
  unfold hashBetweenDots at h
  split at h
  · cases h
  next r start n hget =>
    split at h
    · cases h
    · cases h
      have hlt := getHashString_lt hget
      unfold betweenDots at hlt
      rw [List.length_take, List.length_drop] at hlt
      omega

theorem fileBucketBuf_points (hlen : dName.length = dot + 4) (hd0 : d0 ≤ dName.length)
    (hhash : hashDot + 1 + hashStrLen ≤ dName.length) :
    let b := BeeBucket.ofBuf (folder ++ [47] ++ dName) (folder.length + 1) d0
      (folder.length + 1 + hashDot + 1) hashStrLen ip port
    (fileBucketBuf folder dName d0 hashDot dot size hashStrLen ip port).Points b.rangeMapName
      b.hashStr := by
  obtain ⟨tail, hc⟩ := BucketBuf.content_layout
    (s := fileBucketBuf folder dName d0 hashDot dot size hashStrLen ip port) fileBucketBuf_writes
  have htake : (dName ++ [0]).take (dot + 5) = dName ++ [0] :=
    List.take_of_length_le (by simp [hlen])
  have hc' : (fileBucketBuf folder dName d0 hashDot dot size hashStrLen ip port).content
      = (folder ++ [47] ++ dName) ++ (0 :: tail) := by
    rw [hc, htake]
    simp
  have htext : (folder ++ [47] ++ dName).length = folder.length + 1 + dName.length := by
    rw [List.length_append, List.length_append, List.length_singleton]
  refine BucketBuf.points_of_content hc' ?_ ?_
  · rw [htext]
    show folder.length + 1 + d0 ≤ _
    omega
  · rw [htext]
    show folder.length + 1 + hashDot + 1 + hashStrLen ≤ _
    omega

theorem fileBucketBuf_fits_iff (hlen : dName.length = dot + 4) :
    (fileBucketBuf folder dName d0 hashDot dot size hashStrLen ip port).Fits ↔
      folder.length + 1 + dot + 5 ≤ size := by
  rw [BucketBuf.fits_layout fileBucketBuf_writes]
  show _ ≤ size ↔ _
  simp only [List.flatten_cons, List.flatten_nil, List.length_append, List.length_cons,
    List.length_nil, List.length_take, hlen]
  omega

/-! ## folder の file -/

theorem localBucketFile_eq_some {d1 d2 : Nat} {b : BeeBucket} {idx : Fin 2}
    (h : localBucketFile folder dName d0 d1 d2 = some (b, idx)) :
    ∃ len, hashBetweenDots dName d0 d1 = some len ∧ isKct dName d2 = true ∧
      b = .ofBuf (folder ++ [47] ++ dName) (folder.length + 1) d0 (folder.length + 1 + d0 + 1)
        len 0 0 := by
  unfold localBucketFile at h
  split at h
  · cases h
  · split at h
    · cases h
    · split at h
      · cases h
      next hkct =>
        split at h
        · cases h
        · split at h
          · cases h
          next len hhash =>
            cases h
            rw [Bool.not_eq_true, Bool.not_eq_false'] at hkct
            exact ⟨len, hhash, hkct, rfl⟩

theorem remotePatchBucketFile_eq_some {d4 d5 d6 : Nat} {b : BeeBucket} {idx : Fin 2}
    (h : remotePatchBucketFile folder dName d0 d4 d5 d6 = some (b, idx)) :
    ∃ len, hashBetweenDots dName d5 d6 = some len ∧ isKct dName d6 = true ∧
      b = .ofBuf (folder ++ [47] ++ dName) (folder.length + 1) d0 (folder.length + 1 + d5 + 1)
        len b.ip b.port := by
  unfold remotePatchBucketFile at h
  split at h
  · cases h
  · split at h
    · cases h
    next hkct =>
      split at h
      · cases h
      · split at h
        · cases h
        · split at h
          · cases h
          · split at h
            · cases h
            · split at h
              · cases h
              next len hhash =>
                cases h
                rw [Bool.not_eq_true, Bool.not_eq_false'] at hkct
                exact ⟨len, hhash, hkct, rfl⟩

theorem localBucketBuf_spec {d1 d2 : Nat} {s : BucketBuf} (h0 : 0 ∉ dName)
    (hd0 : d0 ≤ dName.length) (h : localBucketBuf folder dName d0 d1 d2 = some s) :
    ∃ b idx, localBucketFile folder dName d0 d1 d2 = some (b, idx) ∧
      s.Points b.rangeMapName b.hashStr ∧ s.Fits := by
  unfold localBucketBuf at h
  obtain ⟨⟨b, idx⟩, hb, h⟩ := Option.bind_eq_some_iff.mp h
  obtain ⟨len, hlen, h⟩ := Option.bind_eq_some_iff.mp h
  cases h
  obtain ⟨len', hlen', hkct, hbuf⟩ := localBucketFile_eq_some hb
  obtain rfl : len = len' := Option.some.inj (hlen.symm.trans hlen')
  have hname := isKct_length h0 hkct
  refine ⟨b, idx, hb, ?_, (fileBucketBuf_fits_iff hname).mpr le_rfl⟩
  rw [hbuf]
  exact fileBucketBuf_points hname hd0 (hashBetweenDots_le hlen)

/-- **remote patch bucket では、終わりの NUL がいつも領域の外に書かれる。** -/
theorem remotePatchBucketBuf_spec {d4 d5 d6 : Nat} {s : BucketBuf} (h0 : 0 ∉ dName)
    (hd0 : d0 ≤ dName.length) (h : remotePatchBucketBuf folder dName d0 d4 d5 d6 = some s) :
    ∃ b idx, remotePatchBucketFile folder dName d0 d4 d5 d6 = some (b, idx) ∧
      s.Points b.rangeMapName b.hashStr ∧ ¬ s.Fits := by
  unfold remotePatchBucketBuf at h
  obtain ⟨⟨b, idx⟩, hb, h⟩ := Option.bind_eq_some_iff.mp h
  obtain ⟨len, hlen, h⟩ := Option.bind_eq_some_iff.mp h
  cases h
  obtain ⟨len', hlen', hkct, hbuf⟩ := remotePatchBucketFile_eq_some hb
  obtain rfl : len = len' := Option.some.inj (hlen.symm.trans hlen')
  have hname := isKct_length h0 hkct
  refine ⟨b, idx, hb, ?_, fun hfits => ?_⟩
  · rw [hbuf]
    exact fileBucketBuf_points hname hd0 (hashBetweenDots_le hlen)
  · have := (fileBucketBuf_fits_iff hname).mp hfits
    omega

end

/-! ## 設定と memory の bucket -/

theorem length_decimal_port {port : Int} (h : port ≤ 65535) :
    (decimal port.toNat).length ≤ 5 := by
  unfold decimal
  rw [List.length_map]
  exact (Nat.length_toDigits_le_iff (by decide) (by decide)).mpr (by omega)

theorem configBucket_fits {c : DiskBucketConfig} {k : ConfigChecked} (h : checkConfig c = .ok k) :
    (configBucket c k).1.buf.length < (configBucket c k).2 := by
  obtain ⟨hch, hremote⟩ := checkConfig_eq_ok h
  unfold configBucket
  cases hr : k.remote with
  | none =>
    obtain ⟨b, hb, -⟩ := decimal_idx k.idx
    simp only [BeeBucket.ofBuf, List.length_append, List.length_cons, List.length_nil, hb,
      hch.length]
    omega
  | some r =>
    have hport := length_decimal_port (hremote r hr).2.2
    simp only [BeeBucket.ofBuf, List.length_append, List.length_cons, List.length_nil, hch.length]
    omega

section

variable {rangeMap hash : List UInt8} {hashLen : Nat}

theorem CheckedNameHash.dropLast (h : CheckedNameHash rangeMap hash hashLen) :
    hash.dropLast = hash.take hashLen := by
  rw [List.dropLast_eq_take, h.length, Nat.add_sub_cancel]

theorem configBucket_slices (c : DiskBucketConfig) (k : ConfigChecked) :
    let b := (configBucket c k).1
    b.rangeMapName = (b.buf.drop (k.folder.length + 1)).take c.rangeMap.length ∧
      b.hashStr = (b.buf.drop (match k.remote with
        | none => k.folder.length + 1 + c.rangeMap.length + 1
        | some _ => b.buf.length - 5 - k.hashLen)).take k.hashLen := by
  unfold configBucket
  cases k.remote with
  | none => exact ⟨rfl, rfl⟩
  | some r => exact ⟨rfl, rfl⟩

theorem configBucket_inside {c : DiskBucketConfig} {k : ConfigChecked}
    (h : CheckedNameHash c.rangeMap c.hash k.hashLen) :
    let b := (configBucket c k).1
    k.folder.length + 1 + c.rangeMap.length ≤ b.buf.length ∧
      (match k.remote with
        | none => k.folder.length + 1 + c.rangeMap.length + 1
        | some _ => b.buf.length - 5 - k.hashLen) + k.hashLen ≤ b.buf.length := by
  unfold configBucket
  cases k.remote with
  | none =>
    simp only [BeeBucket.ofBuf, List.length_append, List.length_cons, List.length_nil, h.length]
    omega
  | some r =>
    simp only [BeeBucket.ofBuf, List.length_append, List.length_cons, List.length_nil, h.length]
    omega

theorem configBucketBuf_spec {c : DiskBucketConfig} {k : ConfigChecked} {s : BucketBuf}
    (h : checkConfig c = .ok k) (hs : configBucketBuf c k = some s) :
    s.Points c.rangeMap c.hash.dropLast ∧ s.Fits := by
  have hfits := configBucket_fits h
  obtain ⟨hch, -⟩ := checkConfig_eq_ok h
  have hkey := configBucket_key h
  simp only [BeeBucket.key, Prod.mk.injEq] at hkey
  obtain ⟨hname, hhash, -⟩ := hkey
  unfold configBucketBuf at hs
  dsimp only at hs
  rw [if_neg (by omega), Option.some.injEq] at hs
  have htake : (configBucket c k).1.buf.take ((configBucket c k).2 - 1)
      = (configBucket c k).1.buf := List.take_of_length_le (by omega)
  have hw : s.writes = BufWrite.layout 0 [(configBucket c k).1.buf ++ [0]] := by
    rw [← hs, htake]
    rfl
  have hsize : s.size = (configBucket c k).2 := by rw [← hs]
  constructor
  · obtain ⟨tail, hc⟩ := BucketBuf.content_layout hw
    rw [List.flatten_singleton, List.append_assoc] at hc
    obtain ⟨h1, h2⟩ := configBucket_inside hch
    have hpoints := BucketBuf.points_of_content hc (by rw [← hs]; exact h1)
      (by rw [← hs]; exact h2)
    obtain ⟨hname', hhash'⟩ := configBucket_slices c k
    constructor
    · rw [hpoints.name, ← hs]
      exact hname'.symm.trans hname
    · rw [hpoints.digits, ← hs, hch.dropLast]
      exact hhash'.symm.trans hhash
  · refine (BucketBuf.fits_layout hw).mpr ?_
    rw [hsize, List.flatten_singleton, List.length_append, List.length_singleton]
    omega

theorem memBucketBuf_spec (h : CheckedNameHash rangeMap hash hashLen) :
    (memBucketBuf rangeMap hash hashLen).Points rangeMap hash.dropLast ∧
      (memBucketBuf rangeMap hash hashLen).Fits := by
  have hw : (memBucketBuf rangeMap hash hashLen).writes
      = BufWrite.layout 0 [rangeMap, [46], hash, [46, 37, 0]] := by
    simp [memBucketBuf, BufWrite.layout]
  constructor
  · obtain ⟨tail, hc⟩ := BucketBuf.content_layout hw
    have hc' : (memBucketBuf rangeMap hash hashLen).content
        = (rangeMap ++ [46] ++ hash) ++ (46 :: 37 :: 0 :: tail) := by
      rw [hc]
      simp
    have hlen : (rangeMap ++ [46] ++ hash).length = rangeMap.length + 1 + hash.length := by
      rw [List.length_append, List.length_append, List.length_singleton]
    have hhash : (rangeMap ++ [46] ++ hash).drop (rangeMap.length + 1) = hash :=
      List.drop_left' (by rw [List.length_append, List.length_singleton])
    have hpoints := BucketBuf.points_of_content hc'
      (by show 0 + rangeMap.length ≤ _; omega)
      (by show rangeMap.length + 1 + hashLen ≤ _; rw [hlen, h.length]; omega)
    constructor
    · rw [hpoints.name]
      show ((rangeMap ++ [46] ++ hash).drop 0).take rangeMap.length = rangeMap
      rw [List.drop_zero, List.append_assoc, List.take_left]
    · rw [hpoints.digits, h.dropLast]
      exact congrArg (List.take hashLen) hhash
  · refine (BucketBuf.fits_layout hw).mpr ?_
    show _ ≤ rangeMap.length + 1 + hash.length + 3
    simp only [List.flatten_cons, List.flatten_nil, List.length_append, List.length_cons,
      List.length_nil]
    omega

end

/-! ## 呼び出しごとの長さ -/

theorem splitOn_last {p : List UInt8} (hp : 46 ∉ p) : p.splitOn 46 = [p] := by
  refine List.splitOnP_eq_singleton fun c hc => ?_
  rw [beq_eq_false_iff_ne]
  exact fun he => hp (he ▸ hc)

theorem splitOn_field {p q : List UInt8} (hp : 46 ∉ p) :
    (p ++ 46 :: q).splitOn 46 = p :: q.splitOn 46 := by
  have hfirst : p.splitOnP (· == 46) = [p] := splitOn_last hp
  show (p ++ 46 :: q).splitOnP (· == 46) = _
  rw [List.splitOnP_append_cons p q (by simp), hfirst]
  rfl

namespace BucketRequest

variable {q : BucketRequest} {s : BucketBuf}

theorem fields_file {folder folder' : List UInt8} {dName : CStr} {b : BeeBucket} {idx : Fin 2}
    (hb : fileBucket folder' dName.bytes = some (b, idx)) :
    (file folder dName).fields = (b.rangeMapName, b.hashStr) := by
  have h0 : 0 ∉ dName.bytes := dName.2
  have hkct : 46 ∉ ([107, 99, 116] : List UInt8) := by decide
  unfold fields
  dsimp only
  obtain h3 | h7 := fileBucket_dots hb
  · obtain ⟨junk, c, hname, ⟨hm, hh, hj⟩, -⟩ := fileBucket_local_fields h0 h3 hb
    rw [hname, splitOn_field hm, splitOn_field hh, splitOn_field hj, splitOn_last hkct]
    dsimp only
    rw [List.dropLast_concat]
  · obtain ⟨w, t, r, n, hname, ⟨hm, hw, ht, hh⟩, -⟩ := fileBucket_remote_fields h0 h7 hb
    have hfirst : 46 ∉ w.blanks ++ w.n1 := by
      rw [List.mem_append, not_or]
      exact ⟨w.notMem_blanks, w.notMem_run (by simp)⟩
    have hlast : 46 ∉ w.n4 ++ w.tail := by
      rw [List.mem_append, not_or]
      exact ⟨w.notMem_run (by simp), hw⟩
    have hbytes : w.bytes ++ 46 :: (t ++ 46 :: ((b.hashStr ++ [120]) ++ [46, 107, 99, 116]))
        = (w.blanks ++ w.n1) ++ 46 :: (w.n2 ++ 46 :: (w.n3 ++ 46 :: ((w.n4 ++ w.tail) ++
          46 :: (t ++ 46 :: ((b.hashStr ++ [120]) ++ 46 :: [107, 99, 116]))))) := by
      rw [w.bytes_eq]
      simp only [List.append_assoc, List.cons_append]
    rw [hname, hbytes, splitOn_field hm, splitOn_field hfirst,
      splitOn_field (w.notMem_run (by simp)), splitOn_field (w.notMem_run (by simp)),
      splitOn_field hlast, splitOn_field ht, splitOn_field hh, splitOn_last hkct]
    dsimp only
    rw [List.dropLast_concat]

theorem le_of_mem_dotsOf {dName : List UInt8} {d : Nat} (h : d ∈ dotsOf dName) :
    d ≤ dName.length := by
  unfold dotsOf at h
  exact (List.mem_range.mp (List.mem_of_mem_filter h)).le

/-- **どの構築子でも、欄はちょうど map の名前と prefix の桁を指す。領域に収まるのは、remote patch の
file でないときである。** -/
theorem spec (h : q.buf = some s) :
    s.Points q.fields.1 q.fields.2 ∧ (s.Fits ↔ ¬ q.RemotePatch) := by
  cases q with
  | file folder dName =>
    have h0 : 0 ∉ dName.bytes := dName.2
    simp only [buf] at h
    split at h
    · cases h
    · split at h
      next d0 d1 d2 hdots =>
        obtain ⟨b, idx, hb, hpoints, hfits⟩ :=
          localBucketBuf_spec h0 (le_of_mem_dotsOf (by simp [hdots])) h
        have hfile : fileBucket (if folder = [] then [46] else folder) dName.bytes
            = some (b, idx) := by
          rw [fileBucket, hdots]
          exact hb
        rw [fields_file hfile]
        refine ⟨hpoints, iff_of_true hfits fun h7 => ?_⟩
        rw [RemotePatch, hdots] at h7
        cases h7
      next d0 d1 d2 d3 d4 d5 d6 hdots =>
        obtain ⟨b, idx, hb, hpoints, hfits⟩ :=
          remotePatchBucketBuf_spec h0 (le_of_mem_dotsOf (by simp [hdots])) h
        have hfile : fileBucket (if folder = [] then [46] else folder) dName.bytes
            = some (b, idx) := by
          rw [fileBucket, hdots]
          exact hb
        rw [fields_file hfile]
        refine ⟨hpoints, iff_of_false hfits (not_not_intro ?_)⟩
        rw [RemotePatch, hdots]
        rfl
      · cases h
  | config c =>
    simp only [buf] at h
    split at h
    · cases h
    next k hk =>
      obtain ⟨hpoints, hfits⟩ := configBucketBuf_spec hk h
      exact ⟨hpoints, iff_of_true hfits not_false⟩
  | mem rangeMapName hash =>
    simp only [buf] at h
    split at h
    · cases h
    next hashLen hok =>
      cases h
      obtain ⟨hpoints, hfits⟩ := memBucketBuf_spec (checkNameHash_eq_ok hok)
      exact ⟨hpoints, iff_of_true hfits not_false⟩

end BucketRequest

/-- 書き込みが領域に収まり、欄がちょうど map の名前と prefix の桁を指す。 -/
structure BucketBuf.Exact (s : BucketBuf) (name digits : List UInt8) : Prop
    extends s.Points name digits where
  fits : s.Fits

/--
**受け付けられた呼び出しの `buf` が正しく作られるのは、`bee_open_remote_patch_bucket_file` に渡る
file でないときに限る。** 他の三つは、長さの和が書く byte の数を下回らない。
-/
theorem bucket_buf_exact_iff {q : BucketRequest} {s : BucketBuf} (h : q.buf = some s) :
    s.Exact q.fields.1 q.fields.2 ↔ ¬ q.RemotePatch := by
  obtain ⟨hpoints, hfits⟩ := BucketRequest.spec h
  exact ⟨fun hexact => hfits.mp hexact.fits, fun hq => ⟨hpoints, hfits.mpr hq⟩⟩

/-- memory の bucket `m.1Fx.%` は、ちょうど収まる。 -/
theorem mem_bucket_buf_exact : (memBucketBuf [109] [49, 70, 120] 2).Exact [109] [49, 70] :=
  (bucket_buf_exact_iff (q := .mem [109] [49, 70, 120]) rfl).mpr (by decide)

def remotePatchFile : CStr :=
  .ofBytes [109, 46, 49, 46, 49, 46, 49, 46, 49, 46, 49, 46, 120, 46, 107, 99, 116]

/-- 受け付けられた `m.1.1.1.1.1.x.kct` では、19 byte の `buf` に 20 byte を書く。 -/
theorem remote_patch_writes_past_end :
    (BucketRequest.file [46] remotePatchFile).buf
        = some (fileBucketBuf [46] remotePatchFile.bytes 1 11 13 19 0 16843009 1) ∧
      ¬ (fileBucketBuf [46] remotePatchFile.bytes 1 11 13 19 0 16843009 1).Exact [109] [] := by
  refine ⟨rfl, fun h => ?_⟩
  have hlast := h.fits ⟨2, remotePatchFile.bytes ++ [0]⟩ (by
    exact List.mem_cons_of_mem _ (List.mem_cons_of_mem _ List.mem_cons_self))
  exact absurd hlast (by decide)

end Esq
