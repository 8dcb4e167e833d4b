import Esq.Bee.Online
import Mathlib.Data.List.GetD

/-!
# bucket の file 名

`bee_add_disk_bucket_by_config` が作る file 名を、`bee_open_buckets_from_folder` が読み戻す。

名前は `.` で区切る。local の bucket は四つ、remote patch bucket は八つの部分からなり、
開く側は `.` の数でどちらかを決めて、位置で部分を取り出す。

* `bucket_file_round_trip` — 作る側が受け付けた設定の file が同じ bucket として読み戻されるのは、
  hash の文字列が小文字の `x` で終わるときに限る
-/

namespace Esq

open Infra

/-! ## 区切り -/

section

variable {xs ys : List UInt8}

theorem dotsOf_append (xs ys : List UInt8) :
    dotsOf (xs ++ ys) = dotsOf xs ++ (dotsOf ys).map (xs.length + ·) := by
  unfold dotsOf
  rw [List.length_append, List.range_add, List.filter_append, List.filter_map]
  congr 1
  · refine List.filter_congr fun i hi => ?_
    rw [List.getD_append _ _ _ _ (List.mem_range.mp hi)]
  · congr 1
    refine List.filter_congr fun i _ => ?_
    simp only [Function.comp_apply]
    rw [List.getD_append_right _ _ _ _ (Nat.le_add_right ..), Nat.add_sub_cancel_left]

theorem dotsOf_dot (xs : List UInt8) : dotsOf (46 :: xs) = 0 :: (dotsOf xs).map (1 + ·) :=
  dotsOf_append [46] xs

theorem dotsOf_eq_nil (h : 46 ∉ xs) : dotsOf xs = [] := by
  unfold dotsOf
  refine List.filter_eq_nil_iff.mpr fun i hi => ?_
  have hi := List.mem_range.mp hi
  rw [List.getD_eq_getElem _ _ hi, decide_eq_true_eq]
  exact fun he => h (he ▸ List.getElem_mem hi)

theorem dotsOf_part (h : 46 ∉ xs) : dotsOf (xs ++ 46 :: ys)
    = xs.length :: (dotsOf ys).map (xs.length + 1 + ·) := by
  rw [dotsOf_append, dotsOf_eq_nil h, dotsOf_dot, List.map_cons, List.map_map, List.nil_append,
    Nat.add_zero]
  congr 1
  refine List.map_congr_left fun i _ => ?_
  simp only [Function.comp_apply]
  omega

theorem length_dotsOf : (dotsOf xs).length = xs.count 46 := by
  induction xs with
  | nil => rfl
  | cons c xs ih =>
    rw [← List.singleton_append, dotsOf_append, List.length_append, List.length_map, ih,
      List.count_append]
    congr 1
    by_cases hc : c = 46
    · subst hc
      rfl
    · rw [dotsOf_eq_nil (by simpa using Ne.symm hc), List.count_singleton]
      simp [hc]

theorem betweenDots_part (pre mid post : List UInt8) {d e : Nat} (hd : d = pre.length)
    (he : e = pre.length + 1 + mid.length) :
    betweenDots (pre ++ 46 :: (mid ++ 46 :: post)) d e = mid := by
  subst hd he
  unfold betweenDots
  rw [show pre ++ 46 :: (mid ++ 46 :: post) = (pre ++ [46]) ++ (mid ++ 46 :: post) by simp,
    List.drop_left' (by simp), List.take_left' (by omega)]

theorem getD_last (pre : List UInt8) (x : UInt8) (post : List UInt8) {i : Nat}
    (hi : i = pre.length) : (pre ++ x :: post).getD i 0 = x := by
  subst hi
  rw [List.getD_append_right _ _ _ _ (Nat.le_refl _), Nat.sub_self]
  rfl

theorem isKct_suffix (pre : List UInt8) {i : Nat} (hi : i = pre.length) :
    isKct (pre ++ [46, 107, 99, 116]) i = true := by
  subst hi
  unfold isKct
  simp only [List.getD_append_right _ _ _ _ (Nat.le_add_right ..), Nat.add_sub_cancel_left]
  rfl

end

/-! ## 部分 -/

namespace Ipv4Statu

def dots : Ipv4Statu → Nat
  | .start | .number1 => 0
  | .dot1 | .number2 => 1
  | .dot2 | .number3 => 2
  | .dot3 | .number4 => 3

end Ipv4Statu

theorem Ipv4.fetchNumber_dots {v w : Ipv4} {d : Nat} (h : v.fetchNumber d = some w) :
    w.statu.dots = v.statu.dots := by
  unfold Ipv4.fetchNumber at h
  split at h
  all_goals first
    | (next hs => cases h; rw [hs]; rfl)
    | (next hs =>
       obtain ⟨m, -, rfl⟩ := Option.map_eq_some_iff.mp h
       rfl)

theorem Ipv4.fetchDot_dots {v w : Ipv4} (h : v.fetchDot = some w) :
    w.statu.dots = v.statu.dots + 1 := by
  unfold Ipv4.fetchDot at h
  split at h
  all_goals first
    | (next hs => cases h; rw [hs]; rfl)
    | cases h

theorem getIpv4AddrLoop_full (cs : List UInt8) : ∀ {v : Ipv4} {i r ap : Nat},
    getIpv4AddrLoop v i cs = some (r, ap) → r = i + cs.length →
    cs.count 46 + v.statu.dots = 3 ∧ 0 ∉ cs := by
  induction cs with
  | nil =>
    intro v i r ap h _
    rw [getIpv4AddrLoop] at h
    split at h
    next hs =>
      rw [hs]
      exact ⟨rfl, List.not_mem_nil⟩
    · cases h
  | cons c cs ih =>
    intro v i r ap h hr
    rw [List.length_cons] at hr
    have hzero : str2Ipv4HandleTable c ≠ .invalid → 0 ∉ cs → 0 ∉ c :: cs := by
      intro hc hcs hm
      rcases List.mem_cons.mp hm with rfl | hm
      · exact hc rfl
      · exact hcs hm
    have hcount : str2Ipv4HandleTable c ≠ .dot → (c :: cs).count 46 = cs.count 46 := by
      intro hc
      refine List.count_cons_of_ne ?_
      rintro rfl
      exact hc rfl
    rw [getIpv4AddrLoop] at h
    split at h
    · cases h
    next hc =>
      split at h
      · cases h
      next w hw =>
        obtain ⟨hdots, hcs⟩ := ih h (by omega)
        rw [hcount (by rw [hc]; exact Ipv4Char.noConfusion), ← Ipv4.fetchNumber_dots hw]
        exact ⟨hdots, hzero (by rw [hc]; exact Ipv4Char.noConfusion) hcs⟩
    next hc =>
      split at h
      · cases h
      next w hw =>
        obtain ⟨hdots, hcs⟩ := ih h (by omega)
        have hdot : c = 46 := by
          unfold str2Ipv4HandleTable at hc
          split at hc
          · cases hc
          · split at hc
            · assumption
            · split at hc <;> cases hc
        rw [Ipv4.fetchDot_dots hw] at hdots
        subst hdot
        rw [List.count_cons_self]
        exact ⟨by omega, hzero (by rw [hc]; exact Ipv4Char.noConfusion) hcs⟩
    next hc =>
      have hc' : str2Ipv4HandleTable c ≠ .invalid ∧ str2Ipv4HandleTable c ≠ .dot := by
        rw [hc]
        exact ⟨Ipv4Char.noConfusion, Ipv4Char.noConfusion⟩
      split at h
      · obtain ⟨hdots, hcs⟩ := ih h (by omega)
        rw [hcount hc'.2]
        exact ⟨hdots, hzero hc'.1 hcs⟩
      · cases h
        omega
      · cases h

theorem digit_range {c : Char} (h : c.isDigit = true) : 48 ≤ c.toNat ∧ c.toNat ≤ 57 := by
  rw [Char.isDigit, Bool.and_eq_true, decide_eq_true_eq, decide_eq_true_eq] at h
  exact ⟨h.1, h.2⟩

theorem isNumber {n : Nat} (hl : 48 ≤ n) (hu : n ≤ 57) :
    48 ≤ UInt8.ofNat n ∧ UInt8.ofNat n ≤ 57 := by
  rw [UInt8.le_iff_toNat_le, UInt8.le_iff_toNat_le, UInt8.toNat_ofNat']
  constructor
  · show 48 ≤ n % 2 ^ 8
    omega
  · show n % 2 ^ 8 ≤ 57
    omega

theorem getInteger1000000Loop_digits (ds : List Char) : ∀ {n i : Nat},
    (∀ c ∈ ds, c.isDigit = true) → Nat.ofDigitChars 10 ds n ≤ numberLimit →
    getInteger1000000Loop (some n) i (ds.map fun c => UInt8.ofNat c.toNat)
      = some (i + ds.length, Nat.ofDigitChars 10 ds n) := by
  induction ds with
  | nil =>
    intro n i _ _
    rw [Nat.ofDigitChars_nil]
    rfl
  | cons c ds ih =>
    intro n i hd hm
    obtain ⟨hl, hu⟩ := digit_range (hd c List.mem_cons_self)
    have hc : (UInt8.ofNat c.toNat).toNat = c.toNat := by
      rw [UInt8.toNat_ofNat']
      omega
    rw [Nat.ofDigitChars_cons, show '0'.toNat = 48 from rfl] at hm ⊢
    have hle : 10 * n + (c.toNat - 48) ≤ numberLimit := by
      refine le_trans ?_ hm
      rw [Nat.ofDigitChars_eq_ofDigitChars_zero (l := ds)]
      refine le_trans ?_ (Nat.le_add_right _ _)
      exact Nat.le_mul_of_pos_left _ (Nat.pow_pos (by decide))
    rw [List.map_cons, getInteger1000000Loop, if_pos (isNumber hl hu), hc]
    rw [if_neg (by omega), Nat.mul_comm n 10, ih (fun d hd' => hd d (List.mem_cons_of_mem c hd')) hm,
      List.length_cons]
    congr 2
    omega

theorem getInteger1000000_decimal {n : Nat} (hn : n ≤ numberLimit) :
    getInteger1000000 (decimal n) = some ((decimal n).length, n) := by
  have hdigits : ∀ c ∈ Nat.toDigits 10 n, c.isDigit = true := fun c hc =>
    Nat.isDigit_of_mem_toDigits (by decide) (by decide) hc
  have hvalue := Nat.ofDigitChars_ten_toDigits (n := n)
  unfold decimal getInteger1000000
  rw [List.length_map]
  cases hds : Nat.toDigits 10 n with
  | nil => exact absurd hds Nat.toDigits_ne_nil
  | cons c ds =>
    rw [hds] at hdigits hvalue
    obtain ⟨hl, hu⟩ := digit_range (hdigits c List.mem_cons_self)
    have hc : (UInt8.ofNat c.toNat).toNat = c.toNat := by
      rw [UInt8.toNat_ofNat']
      omega
    rw [Nat.ofDigitChars_cons, Nat.mul_zero, Nat.zero_add, show '0'.toNat = 48 from rfl] at hvalue
    rw [List.map_cons, getInteger1000000Loop, if_pos (isNumber hl hu), hc]
    rw [getInteger1000000Loop_digits ds (fun d hd => hdigits d (List.mem_cons_of_mem c hd))
      (by rw [hvalue]; exact hn), hvalue, List.length_cons, Nat.add_comm]

theorem notMem_decimal {n : Nat} {b : UInt8} (hb : b.toNat < 48) : b ∉ decimal n := by
  unfold decimal
  intro hm
  obtain ⟨c, hc, rfl⟩ := List.mem_map.mp hm
  obtain ⟨hl, hu⟩ := digit_range (Nat.isDigit_of_mem_toDigits (by decide) (by decide) hc)
  rw [UInt8.toNat_ofNat'] at hb
  omega

theorem getHashStringLoop_chars (cs : List UInt8) : ∀ {start : Option Nat} {i r s len : Nat},
    getHashStringLoop start i cs = some (r, s, len) →
    i < r ∧ ∀ c ∈ cs.take (r - i), hashStringHandleTable c ≠ .invalid := by
  induction cs with
  | nil =>
    intro start i r s len h
    cases h
  | cons c cs ih =>
    intro start i r s len h
    have hcons : ∀ {start' : Option Nat}, hashStringHandleTable c ≠ .invalid →
        getHashStringLoop start' (i + 1) cs = some (r, s, len) →
        i < r ∧ ∀ d ∈ (c :: cs).take (r - i), hashStringHandleTable d ≠ .invalid := by
      intro start' hc h'
      obtain ⟨hlt, hcs⟩ := ih h'
      refine ⟨by omega, fun d hd => ?_⟩
      rw [show r - i = r - (i + 1) + 1 by omega, List.take_succ_cons] at hd
      rcases List.mem_cons.mp hd with rfl | hd
      · exact hc
      · exact hcs d hd
    rw [getHashStringLoop] at h
    split at h
    · cases h
    next hc => exact hcons (by rw [hc]; exact HashChar.noConfusion) h
    next hc =>
      split at h
      · cases h
      · exact hcons (by rw [hc]; exact HashChar.noConfusion) h
    next hc =>
      split at h
      · cases h
      · cases h
        refine ⟨by omega, fun d hd => ?_⟩
        rw [Nat.add_sub_cancel_left, List.take_succ_cons, List.take_zero,
          List.mem_singleton] at hd
        rw [hd, hc]
        exact HashChar.noConfusion

/-! ## 作る側の検査 -/

structure CheckedFile (c : DiskBucketConfig) (k : ConfigChecked) : Prop where
  name : rangeMapNameCheck2 c.rangeMap = none
  hash : getHashString c.hash = some (k.hashLen + 1, 0, k.hashLen)
  hashLength : c.hash.length = k.hashLen + 1
  idx : c.idx = (k.idx : Nat)
  isLocal : k.remote = none ↔ c.ip = none
  remote : ∀ ip ap, k.remote = some (ip, ap) → getIpv4Addr ip = some (ip.length, ap)
    ∧ 0 ≤ c.port ∧ c.port ≤ 65535
  folder : k.folder.length ≤ maxDiskBucketFolder

theorem idxOfInt_eq_some {i : Int} {idx : Fin 2} (h : idxOfInt i = some idx) :
    i = ((idx : Nat) : Int) := by
  unfold idxOfInt at h
  split at h
  next hi =>
    cases h
    exact hi
  · split at h
    next hi =>
      cases h
      exact hi
    · cases h

theorem checkConfig_file {c : DiskBucketConfig} {k : ConfigChecked} (h : checkConfig c = .ok k) :
    CheckedFile c k := by
  unfold checkConfig at h
  obtain ⟨ip, hip, h⟩ := bind_eq_ok.mp h
  split at h
  · cases h
  next idx hidx =>
    obtain ⟨remote, hremote, h⟩ := bind_eq_ok.mp h
    obtain ⟨folder, hfolder, h⟩ := bind_eq_ok.mp h
    obtain ⟨hashLen, hhash, h⟩ := bind_eq_ok.mp h
    cases h
    constructor
    case name => exact (checkNameHash_eq_ok hhash).name
    case hashLength => exact (checkNameHash_eq_ok hhash).length
    case hash =>
      unfold checkNameHash at hhash
      split at hhash
      · cases hhash
      · split at hhash
        · cases hhash
        next r start len hget =>
          split at hhash
          · cases hhash
          next hcond =>
            cases hhash
            simp only [not_or, not_not] at hcond
            obtain ⟨rfl, -⟩ := hcond
            obtain ⟨-, hr, -⟩ := getHashString_split hget
            rw [hget, hr, Nat.zero_add]
    case idx => exact idxOfInt_eq_some hidx
    case isLocal =>
      show remote = none ↔ c.ip = none
      unfold checkRemote at hip
      unfold checkIpPort at hremote
      split at hip
      next hnone =>
        split at hip
        · cases hip
          cases hremote
          exact ⟨fun _ => hnone, fun _ => rfl⟩
        · cases hip
      next s hs =>
        split at hip
        · cases hip
          rw [hs]
          dsimp only at hremote
          split at hremote
          · cases hremote
          · split at hremote
            · cases hremote
            · split at hremote
              · cases hremote
              · cases hremote
                exact ⟨fun h => (Option.some_ne_none _ h).elim, fun h => (Option.some_ne_none _ h).elim⟩
        · cases hip
    case remote =>
      intro s ap hs
      have hs : remote = some (s, ap) := hs
      subst hs
      refine ⟨?_, (checkIpPort_eq_ok hremote).2⟩
      unfold checkIpPort at hremote
      split at hremote
      · cases hremote
      · split at hremote
        · cases hremote
        next r a hget =>
          split at hremote
          · cases hremote
          next hr =>
            split at hremote
            · cases hremote
            · cases hremote
              rw [hget, not_not.mp hr]
    case folder =>
      show folder.length ≤ _
      unfold checkFolder at hfolder
      split at hfolder
      · cases hfolder
      next hlong =>
        unfold CStr.strnlen at hlong
        split at hfolder
        · cases hfolder
          decide
        · cases hfolder
          omega

/-! ## 作った名前 -/

def createdFileName (c : DiskBucketConfig) (k : ConfigChecked) : List UInt8 :=
  (configBucket c k).1.buf.drop (k.folder.length + 1)

/-- `bee_open_bucket_file` が名前から読む bucket。`none` は読み飛ばす file である。 -/
def fileBucket (folder dName : List UInt8) : Option (BeeBucket × Fin 2) :=
  match dotsOf dName with
  | [d0, d1, d2] => localBucketFile folder dName d0 d1 d2
  | [d0, _, _, _, d4, d5, d6] => remotePatchBucketFile folder dName d0 d4 d5 d6
  | _ => none

section

variable {c : DiskBucketConfig} {k : ConfigChecked}

theorem createdFileName_local (hr : k.remote = none) : createdFileName c k
    = c.rangeMap ++ 46 :: (c.hash ++ 46 :: (decimal k.idx ++ [46, 107, 99, 116])) := by
  unfold createdFileName configBucket
  rw [hr]
  show (k.folder ++ [47] ++ c.rangeMap ++ [46] ++ c.hash ++ [46] ++ decimal k.idx
    ++ [46, 107, 99, 116]).drop (k.folder.length + 1) = _
  rw [show k.folder ++ [47] ++ c.rangeMap ++ [46] ++ c.hash ++ [46] ++ decimal k.idx
    ++ [46, 107, 99, 116] = (k.folder ++ [47])
      ++ (c.rangeMap ++ 46 :: (c.hash ++ 46 :: (decimal k.idx ++ [46, 107, 99, 116]))) by simp]
  exact List.drop_left' (by simp)

theorem createdFileName_remote {ip : List UInt8} {ap : Nat} (hr : k.remote = some (ip, ap)) :
    createdFileName c k = c.rangeMap ++ 46 :: (ip ++ 46 :: (decimal c.port.toNat
      ++ 46 :: (c.hash ++ [46, 107, 99, 116]))) := by
  unfold createdFileName configBucket
  rw [hr]
  show (k.folder ++ [47] ++ c.rangeMap ++ [46] ++ ip ++ [46] ++ decimal c.port.toNat ++ [46]
    ++ c.hash ++ [46, 107, 99, 116]).drop (k.folder.length + 1) = _
  rw [show k.folder ++ [47] ++ c.rangeMap ++ [46] ++ ip ++ [46] ++ decimal c.port.toNat ++ [46]
    ++ c.hash ++ [46, 107, 99, 116] = (k.folder ++ [47]) ++ (c.rangeMap ++ 46 :: (ip
      ++ 46 :: (decimal c.port.toNat ++ 46 :: (c.hash ++ [46, 107, 99, 116])))) by simp]
  exact List.drop_left' (by simp)

theorem CheckedFile.notMem (h : CheckedFile c k) {b : UInt8} (hb : b = 46 ∨ b = 0) :
    b ∉ c.rangeMap ∧ b ∉ c.hash := by
  constructor
  · intro hm
    have hname := h.name
    unfold rangeMapNameCheck2 at hname
    split at hname
    · cases hname
    · split at hname
      · cases hname
      · split at hname
        next hall =>
          have := List.all_eq_true.mp hall b hm
          rcases hb with rfl | rfl <;> exact absurd this (by decide)
        · cases hname
  · intro hm
    obtain ⟨-, hchars⟩ := getHashStringLoop_chars c.hash h.hash
    rw [Nat.sub_zero, ← h.hashLength, List.take_length] at hchars
    rcases hb with rfl | rfl
    · exact hchars _ hm rfl
    · exact hchars _ hm rfl

theorem CheckedFile.split (h : CheckedFile c k) : ∃ x, c.hash = c.hash.take k.hashLen ++ [x]
    ∧ (c.hash.take k.hashLen).length = k.hashLen ∧ (c.hash.getLast? = some 120 ↔ x = 120) := by
  have hlen : (c.hash.take k.hashLen).length = k.hashLen := by
    rw [List.length_take, h.hashLength]
    omega
  have hdrop : (c.hash.drop k.hashLen).length = 1 := by
    rw [List.length_drop, h.hashLength]
    omega
  obtain ⟨x, hx⟩ := List.length_eq_one_iff.mp hdrop
  have heq : c.hash = c.hash.take k.hashLen ++ [x] := by
    rw [← hx, List.take_append_drop]
  refine ⟨x, heq, hlen, ?_⟩
  rw [heq, List.getLast?_concat, Option.some.injEq]

theorem CheckedFile.hashBetweenDots (h : CheckedFile c k) (pre post : List UInt8) {d e : Nat}
    (hd : d = pre.length) (he : e = pre.length + 1 + c.hash.length) :
    hashBetweenDots (pre ++ 46 :: (c.hash ++ 46 :: post)) d e = some k.hashLen := by
  unfold Esq.hashBetweenDots
  rw [betweenDots_part pre c.hash post hd he, h.hash]
  dsimp only
  rw [if_neg]
  have := h.hashLength
  omega

theorem getD_hash_last {hash digits pre post : List UInt8} {x : UInt8}
    (hx : hash = digits ++ [x]) {i : Nat} (hi : i = pre.length + 1 + hash.length) :
    (pre ++ 46 :: (hash ++ 46 :: post)).getD (i - 1) 0 = x := by
  rw [hx, show pre ++ 46 :: (digits ++ [x] ++ 46 :: post)
    = (pre ++ 46 :: digits) ++ x :: 46 :: post by simp]
  refine getD_last _ _ _ ?_
  rw [hi, hx]
  simp only [List.length_append, List.length_cons, List.length_nil]
  omega

theorem decimal_idx : ∀ i : Fin 2, ∃ b, decimal i = [b] ∧ b ≠ 46 ∧ b ≠ 0 ∧ idxOfChar b = some i
  | 0 => ⟨48, by decide⟩
  | 1 => ⟨49, by decide⟩

theorem ofBuf_key (folder name mid hashStr post : List UInt8) (ip : Nat) (port : Int) {d : Nat}
    (hd : d = name.length + mid.length) :
    (BeeBucket.ofBuf (folder ++ [47] ++ (name ++ mid ++ (hashStr ++ post))) (folder.length + 1)
      name.length (folder.length + 1 + d) hashStr.length ip port).key = (name, hashStr, ip, port) := by
  have hs := ofBuf_slices (folder ++ [47]) name mid hashStr post ip port (folder.length + 1)
    (folder.length + 1 + d) (by simp) (by simp [hd, Nat.add_assoc])
  rw [show folder ++ [47] ++ (name ++ mid ++ (hashStr ++ post))
    = folder ++ [47] ++ name ++ mid ++ hashStr ++ post by simp]
  simp only [BeeBucket.key, hs.1, hs.2]
  rfl

theorem fileBucket_local (h : CheckedFile c k) (hr : k.remote = none) (folder : List UInt8) :
    (c.hash.getLast? = some 120 → ∃ b, fileBucket folder (createdFileName c k) = some (b, k.idx)
        ∧ b.key = (c.rangeMap, c.hash.take k.hashLen, 0, 0)) ∧
      (c.hash.getLast? ≠ some 120 → fileBucket folder (createdFileName c k) = none) := by
  obtain ⟨x, hx, hlen, hlast⟩ := h.split
  obtain ⟨hname, hhash⟩ := h.notMem (Or.inl rfl)
  obtain ⟨b, hdec, hb46, -, hidx⟩ := decimal_idx k.idx
  rw [createdFileName_local hr, hdec]
  have hdots : dotsOf (c.rangeMap ++ 46 :: (c.hash ++ 46 :: ([b] ++ [46, 107, 99, 116])))
      = [c.rangeMap.length, c.rangeMap.length + 1 + c.hash.length,
        c.rangeMap.length + 1 + c.hash.length + 1 + 1] := by
    rw [dotsOf_part hname, dotsOf_part hhash, dotsOf_part (by simpa using hb46.symm),
      dotsOf_eq_nil (by decide)]
    simp only [List.map_cons, List.map_nil, List.length_singleton, Nat.add_assoc]
  unfold fileBucket
  rw [hdots]
  dsimp only
  unfold localBucketFile
  rw [getD_hash_last hx rfl]
  refine ⟨fun hl => ?_, fun hl => if_pos fun he => hl (hlast.mpr he)⟩
  have hbidx : (c.rangeMap ++ 46 :: (c.hash ++ 46 :: ([b] ++ [46, 107, 99, 116]))).getD
      (c.rangeMap.length + 1 + c.hash.length + 1 + 1 - 1) 0 = b := by
    rw [show c.rangeMap ++ 46 :: (c.hash ++ 46 :: ([b] ++ [46, 107, 99, 116]))
      = (c.rangeMap ++ 46 :: (c.hash ++ [46])) ++ b :: [46, 107, 99, 116] by simp]
    refine getD_last _ _ _ ?_
    simp only [List.length_append, List.length_cons, List.length_nil]
    omega
  have hkct : isKct (c.rangeMap ++ 46 :: (c.hash ++ 46 :: ([b] ++ [46, 107, 99, 116])))
      (c.rangeMap.length + 1 + c.hash.length + 1 + 1) = true := by
    rw [show c.rangeMap ++ 46 :: (c.hash ++ 46 :: ([b] ++ [46, 107, 99, 116]))
      = (c.rangeMap ++ 46 :: (c.hash ++ [46, b])) ++ [46, 107, 99, 116] by simp]
    refine isKct_suffix _ ?_
    simp only [List.length_append, List.length_cons, List.length_nil]
    omega
  rw [if_neg (not_not.mpr (hlast.mp hl)), hbidx, hidx]
  dsimp only
  rw [hkct, List.take_left, h.name, h.hashBetweenDots c.rangeMap _ rfl rfl]
  refine ⟨_, rfl, ?_⟩
  have hkey := ofBuf_key folder c.rangeMap [46] (c.hash.take k.hashLen)
    (x :: 46 :: ([b] ++ [46, 107, 99, 116])) 0 0 (d := c.rangeMap.length + 1) rfl
  rw [hlen, show c.rangeMap ++ [46] ++ (c.hash.take k.hashLen ++ x :: 46 :: ([b] ++ [46, 107, 99, 116]))
    = c.rangeMap ++ 46 :: ((c.hash.take k.hashLen ++ [x]) ++ 46 :: ([b] ++ [46, 107, 99, 116])) by
      simp, ← hx, ← Nat.add_assoc] at hkey
  exact hkey

/-- **remote patch bucket の名前を読む。** index はいつも 1 になる。 -/
theorem fileBucket_remote (h : CheckedFile c k) {ip : List UInt8} {ap : Nat}
    (hr : k.remote = some (ip, ap)) (folder : List UInt8) :
    (c.hash.getLast? = some 120 → ∃ b, fileBucket folder (createdFileName c k) = some (b, 1)
        ∧ b.key = (c.rangeMap, c.hash.take k.hashLen, ap, c.port)) ∧
      (c.hash.getLast? ≠ some 120 → fileBucket folder (createdFileName c k) = none) := by
  obtain ⟨x, hx, hlen, hlast⟩ := h.split
  obtain ⟨hname, hhash⟩ := h.notMem (Or.inl rfl)
  obtain ⟨hget, hp0, hp1⟩ := h.remote ip ap hr
  obtain ⟨hcount, -⟩ := getIpv4AddrLoop_full ip hget (Nat.zero_add _).symm
  obtain ⟨e1, e2, e3, hip⟩ := List.length_eq_three.mp (length_dotsOf.trans hcount)
  have hport : (46 : UInt8) ∉ decimal c.port.toNat := notMem_decimal (by decide)
  rw [createdFileName_remote hr]
  generalize hpd : decimal c.port.toNat = port at hport
  have hdots : dotsOf (c.rangeMap ++ 46 :: (ip ++ 46 :: (port ++ 46 :: (c.hash ++ [46, 107, 99, 116]))))
      = [c.rangeMap.length, c.rangeMap.length + 1 + e1, c.rangeMap.length + 1 + e2,
        c.rangeMap.length + 1 + e3, c.rangeMap.length + 1 + ip.length,
        c.rangeMap.length + 1 + ip.length + 1 + port.length,
        c.rangeMap.length + 1 + ip.length + 1 + port.length + 1 + c.hash.length] := by
    rw [dotsOf_part hname, dotsOf_append ip, hip, dotsOf_dot, dotsOf_part hport,
      dotsOf_part hhash, dotsOf_eq_nil (by decide)]
    simp only [List.map_cons, List.map_nil, List.cons_append, List.nil_append, Nat.add_zero,
      Nat.add_assoc]
  have hsplit : c.rangeMap ++ 46 :: (ip ++ 46 :: (port ++ 46 :: (c.hash ++ [46, 107, 99, 116])))
      = (c.rangeMap ++ 46 :: (ip ++ 46 :: port)) ++ 46 :: (c.hash ++ 46 :: [107, 99, 116]) := by
    simp
  have hpre : c.rangeMap.length + 1 + ip.length + 1 + port.length
      = (c.rangeMap ++ 46 :: (ip ++ 46 :: port)).length := by
    simp only [List.length_append, List.length_cons]
    omega
  unfold fileBucket
  rw [hdots]
  dsimp only
  unfold remotePatchBucketFile
  have hlastx : (c.rangeMap ++ 46 :: (ip ++ 46 :: (port ++ 46 :: (c.hash ++ [46, 107, 99, 116])))).getD
      (c.rangeMap.length + 1 + ip.length + 1 + port.length + 1 + c.hash.length - 1) 0 = x := by
    rw [hsplit]
    exact getD_hash_last hx (by rw [hpre])
  rw [hlastx]
  refine ⟨fun hl => ?_, fun hl => if_pos fun he => hl (hlast.mpr he)⟩
  have hkct : isKct (c.rangeMap ++ 46 :: (ip ++ 46 :: (port ++ 46 :: (c.hash ++ [46, 107, 99, 116]))))
      (c.rangeMap.length + 1 + ip.length + 1 + port.length + 1 + c.hash.length) = true := by
    rw [hsplit, show (c.rangeMap ++ 46 :: (ip ++ 46 :: port)) ++ 46 :: (c.hash ++ 46 :: [107, 99, 116])
      = (c.rangeMap ++ 46 :: (ip ++ 46 :: port) ++ 46 :: c.hash) ++ [46, 107, 99, 116] by simp]
    refine isKct_suffix _ ?_
    rw [List.length_append, ← hpre, List.length_cons]
    omega
  have hbip : betweenDots
      (c.rangeMap ++ 46 :: (ip ++ 46 :: (port ++ 46 :: (c.hash ++ [46, 107, 99, 116]))))
      c.rangeMap.length (c.rangeMap.length + 1 + ip.length) = ip :=
    betweenDots_part _ _ _ rfl rfl
  have hbport : betweenDots
      (c.rangeMap ++ 46 :: (ip ++ 46 :: (port ++ 46 :: (c.hash ++ [46, 107, 99, 116]))))
      (c.rangeMap.length + 1 + ip.length) (c.rangeMap.length + 1 + ip.length + 1 + port.length)
        = port := by
    rw [show c.rangeMap ++ 46 :: (ip ++ 46 :: (port ++ 46 :: (c.hash ++ [46, 107, 99, 116])))
      = (c.rangeMap ++ 46 :: ip) ++ 46 :: (port ++ 46 :: (c.hash ++ [46, 107, 99, 116])) by simp]
    refine betweenDots_part _ _ _ ?_ ?_
    · rw [List.length_append, List.length_cons]
      omega
    · rw [List.length_append, List.length_cons]
      omega
  have hbhash : hashBetweenDots
      (c.rangeMap ++ 46 :: (ip ++ 46 :: (port ++ 46 :: (c.hash ++ [46, 107, 99, 116]))))
      (c.rangeMap.length + 1 + ip.length + 1 + port.length)
      (c.rangeMap.length + 1 + ip.length + 1 + port.length + 1 + c.hash.length) = some k.hashLen := by
    rw [hsplit]
    exact h.hashBetweenDots _ _ hpre (by rw [hpre])
  have hint : getInteger1000000 port = some (port.length, c.port.toNat) := by
    rw [← hpd]
    refine getInteger1000000_decimal ?_
    unfold numberLimit
    omega
  have hvalid : portNumberInvalid ((c.port.toNat : Nat) : Int) = false := by
    rw [Int.toNat_of_nonneg hp0]
    simp [portNumberInvalid, hp0, hp1]
  rw [if_neg (not_not.mpr (hlast.mp hl)), hkct, List.take_left, h.name, hbip, hget]
  dsimp only
  rw [hbport, hint]
  dsimp only
  rw [hvalid, hbhash]
  refine ⟨_, rfl, ?_⟩
  have hkey := ofBuf_key folder c.rangeMap (46 :: (ip ++ 46 :: (port ++ [46])))
    (c.hash.take k.hashLen) (x :: [46, 107, 99, 116]) ap c.port
    (d := c.rangeMap.length + (46 :: (ip ++ 46 :: (port ++ [46]))).length) rfl
  rw [hlen, show c.rangeMap ++ 46 :: (ip ++ 46 :: (port ++ [46]))
      ++ (c.hash.take k.hashLen ++ x :: [46, 107, 99, 116])
    = c.rangeMap ++ 46 :: (ip ++ 46 :: (port ++ 46 :: ((c.hash.take k.hashLen ++ [x])
      ++ [46, 107, 99, 116]))) by simp, ← hx] at hkey
  rw [Int.toNat_of_nonneg hp0]
  refine Eq.trans ?_ hkey
  congr 2
  simp only [List.length_append, List.length_cons, List.length_nil]
  omega

end

/-! ## folder を開く -/

/-- `key` の bucket が木にあり、その `idx` 番の KCDB が開いている。 -/
def Bee.Serving (st : Bee) (key : List UInt8 × List UInt8 × Nat × Int) (idx : Fin 2) : Prop :=
  ∃ p ∈ st.online, (st.bucket p).key = key ∧ ((st.bucket p).kcdb idx).isSome = true

structure KeptOpen (st st' : Bee) : Prop where
  online : ∀ p ∈ st.online, p ∈ st'.online
  key : ∀ p ∈ st.online, (st'.bucket p).key = (st.bucket p).key
  kcdb : ∀ p ∈ st.online, ∀ idx, ((st.bucket p).kcdb idx).isSome = true →
    ((st'.bucket p).kcdb idx).isSome = true

section

variable {st st' : Bee} {b : BeeBucket} {idx : Fin 2} {io : OpenIo} {folder : List UInt8}
  {key : List UInt8 × List UInt8 × Nat × Int}

theorem KeptOpen.serving (h : KeptOpen st st') (hs : st.Serving key idx) : st'.Serving key idx := by
  obtain ⟨p, hp, hk, hdb⟩ := hs
  exact ⟨p, h.online p hp, (h.key p hp).trans hk, h.kcdb p hp idx hdb⟩

theorem allocAndOpen_serving (hn : st.AllNamed) (hb : b.Named) {noMemory : String}
    (hr : allocAndOpen io st noMemory b idx = (none, st')) :
    KeptOpen st st' ∧ st'.Serving b.key idx := by
  unfold allocAndOpen at hr
  split at hr
  · cases hr
  next p hp =>
    have hpo := Bee.malloc_eq_some hp
    unfold beeOpenDiskBucket at hr
    split at hr
    next q hq =>
      obtain ⟨hqo, hcmp⟩ := SearchTree.find_eq_some hq
      have hkey := esqBeeBucketCmp_eq_zero hb.toFits (hn q hqo).toFits hcmp
      split at hr
      · cases hr
      · split at hr
        · cases hr
        next db hdb =>
          cases hr
          have hself : (st.setBucket q ((st.bucket q).setKcdb idx (some db))).bucket q
              = (st.bucket q).setKcdb idx (some db) := Function.update_self ..
          refine ⟨⟨fun x hx => hx, fun x hx => ?_, fun x hx i hi => ?_⟩, q, hqo, ?_, ?_⟩
          · by_cases hxq : x = q
            · rw [hxq, hself, BeeBucket.key_setKcdb]
            · exact congrArg BeeBucket.key (Function.update_of_ne hxq _ _)
          · by_cases hxq : x = q
            · rw [hxq, hself]
              rw [hxq] at hi
              by_cases hii : i = idx
              · rw [hii, BeeBucket.kcdb_setKcdb_self]
                rfl
              · rw [BeeBucket.kcdb_setKcdb_of_ne hii]
                exact hi
            · rw [show (st.setBucket q _).bucket x = st.bucket x from Function.update_of_ne hxq _ _]
              exact hi
          · rw [hself, BeeBucket.key_setKcdb]
            exact hkey.symm
          · rw [hself, BeeBucket.kcdb_setKcdb_self]
            rfl
    next hq =>
      split at hr
      · cases hr
      next db hdb =>
        cases hr
        have hfind : st.rbFind (b.setKcdb idx (some db)) = none := by
          rw [← hq]
          rfl
        have hbucket : ((st.rbInsert io.rotate p (b.setKcdb idx (some db))).2.notifyOnline p).bucket
            = Function.update st.bucket p (b.setKcdb idx (some db)) := by
          unfold Bee.rbInsert
          rw [hfind]
          rfl
        have honline : ∀ x, x ∈ ((st.rbInsert io.rotate p
            (b.setKcdb idx (some db))).2.notifyOnline p).online ↔ x = p ∨ x ∈ st.online := by
          intro x
          unfold Bee.rbInsert
          rw [hfind]
          show x ∈ (SearchTree.rotate io.rotate _).toList ↔ _
          rw [SearchTree.toList_rotate, (SearchTree.perm_insert hfind).mem_iff, List.mem_cons]
          rfl
        have hne : ∀ x ∈ st.online, x ≠ p := fun x hx he => hpo (he ▸ hx)
        refine ⟨⟨fun x hx => (honline x).mpr (Or.inr hx), fun x hx => ?_, fun x hx i hi => ?_⟩, p,
          (honline p).mpr (Or.inl rfl), ?_, ?_⟩
        · rw [hbucket, Function.update_of_ne (hne x hx)]
        · rw [hbucket, Function.update_of_ne (hne x hx)]
          exact hi
        · rw [hbucket, Function.update_self, BeeBucket.key_setKcdb]
        · rw [hbucket, Function.update_self, BeeBucket.kcdb_setKcdb_self]
          rfl

theorem fileBucket_named {dName : List UInt8} (h : fileBucket folder dName = some (b, idx)) :
    b.Named := by
  unfold fileBucket at h
  split at h
  · exact localBucketFile_named h
  · exact remotePatchBucketFile_named h
  · cases h

theorem beeOpenBucketFile_eq (io : OpenIo) (st : Bee) (folder : List UInt8) (dName : CStr) :
    match fileBucket folder dName.bytes with
    | none => beeOpenBucketFile io st folder dName = (none, st)
    | some (b, idx) => ∃ noMemory,
        beeOpenBucketFile io st folder dName = allocAndOpen io st noMemory b idx := by
  unfold fileBucket beeOpenBucketFile
  split
  next hf =>
    split
    next hd =>
      rw [hd] at hf
      unfold beeOpenLocalBucketFile
      rw [show localBucketFile folder dName.bytes _ _ _ = none from hf]
    next hd =>
      rw [hd] at hf
      unfold beeOpenRemotePatchBucketFile
      rw [show remotePatchBucketFile folder dName.bytes _ _ _ _ = none from hf]
    · rfl
  next b idx hf =>
    split
    next hd =>
      rw [hd] at hf
      unfold beeOpenLocalBucketFile
      rw [show localBucketFile folder dName.bytes _ _ _ = some (b, idx) from hf]
      exact ⟨_, rfl⟩
    next hd =>
      rw [hd] at hf
      unfold beeOpenRemotePatchBucketFile
      rw [show remotePatchBucketFile folder dName.bytes _ _ _ _ = some (b, idx) from hf]
      exact ⟨_, rfl⟩
    next h3 h7 =>
      split at hf
      · exact absurd ‹_› (h3 _ _ _)
      · exact absurd ‹_› (h7 _ _ _ _ _ _ _)
      · cases hf

/-- **名前から読める file が folder にあれば、folder を開いた後、その bucket が開いている。** -/
theorem openFiles_serving (ents : List Dirent) : ∀ {st st' : Bee}, st.AllNamed →
    beeOpenBucketFiles folder st ents = (none, st') →
    (st.Serving key idx ∨ ∃ ent ∈ ents, ent.isReg = true ∧
      ∃ b, fileBucket folder ent.dName.bytes = some (b, idx) ∧ b.key = key) →
    st'.Serving key idx := by
  induction ents with
  | nil =>
    intro st st' _ hr hs
    cases hr
    rcases hs with hs | ⟨ent, hent, -⟩
    · exact hs
    · cases hent
  | cons ent ents ih =>
    intro st st' hn hr hs
    rw [beeOpenBucketFiles] at hr
    cases hreg : ent.isReg with
    | false =>
      rw [hreg] at hr
      refine ih hn hr (hs.imp id ?_)
      rintro ⟨e, he, hereg, hb⟩
      rcases List.mem_cons.mp he with rfl | he
      · rw [hreg] at hereg
        cases hereg
      · exact ⟨e, he, hereg, hb⟩
    | true =>
      rw [hreg] at hr
      have hfile := beeOpenBucketFile_eq ent.io st folder ent.dName
      have hn' := hn.openFile ent.io folder ent.dName
      rcases hopen : beeOpenBucketFile ent.io st folder ent.dName with ⟨_ | errs, u⟩
      · rw [hopen] at hr hn' hfile
        cases hfb : fileBucket folder ent.dName.bytes with
        | none =>
          rw [hfb] at hfile
          obtain ⟨-, rfl⟩ := Prod.mk.inj hfile
          refine ih hn hr (hs.imp id ?_)
          rintro ⟨e, he, hereg, b, hb, hkey⟩
          rcases List.mem_cons.mp he with rfl | he
          · rw [hfb] at hb
            cases hb
          · exact ⟨e, he, hereg, b, hb, hkey⟩
        | some bi =>
          obtain ⟨b, i⟩ := bi
          rw [hfb] at hfile
          obtain ⟨m, hm⟩ := hfile
          obtain ⟨hkept, hserv⟩ := allocAndOpen_serving hn (fileBucket_named hfb) hm.symm
          refine ih hn' hr ?_
          rcases hs with hs | ⟨e, he, hereg, b', hb', hkey⟩
          · exact Or.inl (hkept.serving hs)
          · rcases List.mem_cons.mp he with rfl | he
            · rw [hfb] at hb'
              cases hb'
              exact Or.inl (hkey ▸ hserv)
            · exact Or.inr ⟨e, he, hereg, b', hb', hkey⟩
      · rw [hopen] at hr
        cases hr

end

/-! ## 往復 -/

/-- 設定 `c` から作った file が、同じ bucket として読み戻される。 -/
structure RoundTrip (c : DiskBucketConfig) (k : ConfigChecked) : Prop where
  reads : ∀ folder, ∃ b, fileBucket folder (createdFileName c k) = some (b, k.idx)
    ∧ b.key = (configBucket c k).1.key
  /-- どの状態で folder を開いても、成功すればその bucket が開いている -/
  opens : ∀ ops folder ents st', (∃ ent ∈ ents, ent.isReg = true
      ∧ ent.dName.bytes = createdFileName c k) →
    beeOpenBucketsFromFolder (beeRun Bee.init ops) folder (some ents) = (none, st') →
    st'.Serving (configBucket c k).1.key k.idx

/-- **小文字の `x` で終わる hash の file は読み戻され、他は読み飛ばされる。** -/
theorem fileBucket_createdFileName {c : DiskBucketConfig} {k : ConfigChecked}
    (h : checkConfig c = .ok k) (hcall : c.ip = none ∨ c.idx = 1) (folder : List UInt8) :
    (c.hash.getLast? = some 120 → ∃ b, fileBucket folder (createdFileName c k) = some (b, k.idx)
        ∧ b.key = (configBucket c k).1.key) ∧
      (c.hash.getLast? ≠ some 120 → fileBucket folder (createdFileName c k) = none) := by
  have hf := checkConfig_file h
  rw [configBucket_key h]
  cases hr : k.remote with
  | none => exact fileBucket_local hf hr folder
  | some r =>
    have hidx : k.idx = 1 := by
      have hone : c.idx = 1 := hcall.resolve_left fun hn => by
        rw [hf.isLocal.mpr hn] at hr
        cases hr
      have := hf.idx
      rw [hone] at this
      exact Fin.ext (by exact_mod_cast this.symm)
    rw [hidx]
    exact fileBucket_remote hf hr folder

/--
**作る側が受け付けた設定の file が同じ bucket として読み戻されるのは、hash の文字列が小文字の
`x` で終わるときに限る。** remote patch bucket は、いつも index 1 で作られる。
-/
theorem bucket_file_round_trip {c : DiskBucketConfig} {k : ConfigChecked}
    (h : checkConfig c = .ok k) (hcall : c.ip = none ∨ c.idx = 1) :
    RoundTrip c k ↔ c.hash.getLast? = some 120 := by
  have hfile := fileBucket_createdFileName h hcall
  constructor
  · intro hrt
    by_contra hlast
    obtain ⟨b, hb, -⟩ := hrt.reads []
    rw [(hfile []).2 hlast] at hb
    cases hb
  · intro hlast
    refine ⟨fun folder => (hfile folder).1 hlast, fun ops folder ents st' hent hopen => ?_⟩
    obtain ⟨ent, hent, hreg, hname⟩ := hent
    unfold beeOpenBucketsFromFolder at hopen
    split at hopen
    · cases hopen
    · obtain ⟨b, hb, hkey⟩ := (hfile (if folder = [] then [46] else folder)).1 hlast
      rw [← hname] at hb
      exact openFiles_serving ents (allNamed_run ops allNamed_init) hopen
        (Or.inr ⟨ent, hent, hreg, b, hb, hkey⟩)

def sampleDiskBucket (hash : List UInt8) : DiskBucketConfig where
  folder := .ofBytes [46]
  rangeMap := [97]
  ip := none
  port := -1
  hash := hash
  idx := 0

/-- hash が `1Fx` の file は読み戻される。 -/
theorem bucket_file_round_trip_lower :
    RoundTrip (sampleDiskBucket [49, 70, 120]) ⟨[46], none, 0, 2⟩ :=
  (bucket_file_round_trip rfl (Or.inl rfl)).mpr rfl

/-- hash が `X` の設定は受け付けられるが、`a.X.0.kct` は読み飛ばされる。 -/
theorem upper_mark_not_read : checkConfig (sampleDiskBucket [88]) = .ok ⟨[46], none, 0, 0⟩
    ∧ fileBucket [46] (createdFileName (sampleDiskBucket [88]) ⟨[46], none, 0, 0⟩) = none
    ∧ ¬ RoundTrip (sampleDiskBucket [88]) ⟨[46], none, 0, 0⟩ := by
  have hnone : fileBucket [46] (createdFileName (sampleDiskBucket [88]) ⟨[46], none, 0, 0⟩)
      = none := by rfl
  refine ⟨rfl, hnone, fun h => ?_⟩
  obtain ⟨b, hb, -⟩ := h.reads [46]
  rw [hnone] at hb
  cases hb

end Esq
