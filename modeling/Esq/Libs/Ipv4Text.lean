import Esq.Libs.InetAddr

/-!
# `get_ipv4_addr` が読む文字列

`get_ipv4_addr` が受け付ける文字列は、空白、点で区切られた四つの 10 進の数、そして終わりか空白である。
-/

namespace Esq

/-! ## 数字の列 -/

structure DottedIp (bs n1 n2 n3 n4 tail : List UInt8) : Prop where
  eq : bs = n1 ++ 46 :: (n2 ++ 46 :: (n3 ++ 46 :: (n4 ++ tail)))
  runs : ∀ n ∈ [n1, n2, n3, n4], n ≠ [] ∧ (∀ c ∈ n, isDecimal c = true) ∧ digitsValue 10 n < 255
  tail : ∀ c, tail.head? = some c → str2Ipv4HandleTable c = .blank

section

variable {cs : List UInt8} {c : UInt8} {v : Ipv4} {i r ap : Nat}

theorem str2Ipv4HandleTable_number_iff : str2Ipv4HandleTable c = .number ↔ isDecimal c = true := by
  have hdec : isDecimal c = true ↔ 48 ≤ c ∧ c ≤ 57 := by
    simp only [isDecimal, Bool.and_eq_true, decide_eq_true_eq]
  rw [hdec]
  unfold str2Ipv4HandleTable
  split
  · next h => exact iff_of_true rfl h
  · next h =>
    refine iff_of_false (fun hn => ?_) h
    split at hn
    · cases hn
    · split at hn <;> cases hn

theorem eq_dot_of_handle (h : str2Ipv4HandleTable c = .dot) : c = 46 := by
  unfold str2Ipv4HandleTable at h
  split at h
  · cases h
  · split at h
    · assumption
    · split at h <;> cases h

theorem isSpace_of_blank (h : str2Ipv4HandleTable c = .blank) : isSpace c = true := by
  unfold str2Ipv4HandleTable at h
  split at h
  · cases h
  · split at h
    · cases h
    · split at h
      · next hb =>
        rcases hb with rfl | rfl | rfl | rfl <;> decide
      · cases h

/-- 数を読んでいる間、`n` までの値だけが変わる状態。 -/
structure ReadsNumber (put : Nat → Ipv4) : Prop where
  step : ∀ n d, (put n).fetchNumber d = (Ipv4.digit n d).map put

theorem loop_digits {put : Nat → Ipv4} (hput : ReadsNumber put) : ∀ (cs : List UInt8) {n i : Nat},
    getIpv4AddrLoop (put n) i cs = some (r, ap) → n < 255 →
    ∃ ds rest j, cs = ds ++ rest ∧ (∀ c ∈ ds, isDecimal c = true) ∧
      (∀ c, rest.head? = some c → str2Ipv4HandleTable c ≠ .number) ∧
      ds.foldl (fun a c => a * 10 + digitValue c) n < 255 ∧
      getIpv4AddrLoop (put (ds.foldl (fun a c => a * 10 + digitValue c) n)) j rest = some (r, ap)
  | [], n, i, h, hn => ⟨[], [], i, rfl, List.forall_mem_nil _, fun _ hc => (nomatch hc), hn, h⟩
  | c :: cs, n, i, h, hn => by
    by_cases hc : str2Ipv4HandleTable c = .number
    · rw [getIpv4AddrLoop, hc] at h
      have hdec := str2Ipv4HandleTable_number_iff.mp hc
      simp only [hput.step] at h
      cases hd : Ipv4.digit n (c.toNat - 48) with
      | none =>
        rw [hd] at h
        cases h
      | some m =>
        rw [hd] at h
        have hm : m = n * 10 + digitValue c := by
          rw [digitValue_of_decimal hdec]
          unfold Ipv4.digit at hd
          split at hd
          · cases hd
          · exact (Option.some.inj hd).symm
        subst hm
        obtain ⟨ds, rest, j, rfl, hds, hrest, hlt, hloop⟩ :=
          loop_digits hput cs h (Ipv4.digit_lt hd)
        exact ⟨c :: ds, rest, j, rfl, List.forall_mem_cons.mpr ⟨hdec, hds⟩, hrest, hlt, hloop⟩
    · exact ⟨[], c :: cs, i, rfl, List.forall_mem_nil _,
        fun b hb => by rw [← Option.some.inj hb]; exact hc, hn, h⟩

theorem loop_blank {c : UInt8} (hc : str2Ipv4HandleTable c = .blank) (hstart : v.statu ≠ .start)
    (hend : v.statu ≠ .number4) : getIpv4AddrLoop v i (c :: cs) = none := by
  rw [getIpv4AddrLoop, hc]
  dsimp only
  split
  next hs => exact absurd hs hstart
  next hs => exact absurd hs hend
  next => rfl

theorem loop_number {put : Nat → Ipv4} (hput : ReadsNumber put)
    (hv : ∀ d, v.fetchNumber d = some (put d)) (hdot : v.fetchDot = none)
    (hstart : ∀ c, cs.head? = some c → str2Ipv4HandleTable c = .blank → v.statu ≠ .start)
    (hend : v.statu ≠ .number4)
    (h : getIpv4AddrLoop v i cs = some (r, ap)) :
    ∃ n rest j, cs = n ++ rest ∧ n ≠ [] ∧ (∀ c ∈ n, isDecimal c = true) ∧
      (∀ c, rest.head? = some c → str2Ipv4HandleTable c ≠ .number) ∧
      digitsValue 10 n < 255 ∧
      getIpv4AddrLoop (put (digitsValue 10 n)) j rest = some (r, ap) := by
  cases cs with
  | nil =>
    rw [getIpv4AddrLoop, if_neg hend] at h
    cases h
  | cons c cs =>
    rw [getIpv4AddrLoop] at h
    cases hc : str2Ipv4HandleTable c with
    | invalid =>
      rw [hc] at h
      cases h
    | dot =>
      rw [hc] at h
      simp only [hdot] at h
      cases h
    | blank =>
      rw [← getIpv4AddrLoop, loop_blank hc (hstart c rfl hc) hend] at h
      cases h
    | number =>
      rw [hc] at h
      simp only [hv] at h
      have hdec := str2Ipv4HandleTable_number_iff.mp hc
      have hlt : c.toNat - 48 < 255 := by
        have := c.toNat_lt
        omega
      obtain ⟨ds, rest, j, rfl, hds, hrest, hfold, hloop⟩ := loop_digits hput cs h hlt
      have hval : digitsValue 10 (c :: ds)
          = ds.foldl (fun a c => a * 10 + digitValue c) (c.toNat - 48) := by
        unfold digitsValue
        rw [List.foldl_cons, digitValue_of_decimal hdec, Nat.zero_mul, Nat.zero_add]
      rw [← hval] at hfold hloop
      exact ⟨c :: ds, rest, j, rfl, List.cons_ne_nil c ds,
        List.forall_mem_cons.mpr ⟨hdec, hds⟩, hrest, hfold, hloop⟩

theorem loop_dot {w : Ipv4} (hnum : ∀ c, cs.head? = some c → str2Ipv4HandleTable c ≠ .number)
    (hdot : v.fetchDot = some w) (hstart : v.statu ≠ .start) (hend : v.statu ≠ .number4)
    (h : getIpv4AddrLoop v i cs = some (r, ap)) :
    ∃ rest j, cs = 46 :: rest ∧ getIpv4AddrLoop w j rest = some (r, ap) := by
  cases cs with
  | nil =>
    rw [getIpv4AddrLoop, if_neg hend] at h
    cases h
  | cons c cs =>
    rw [getIpv4AddrLoop] at h
    cases hc : str2Ipv4HandleTable c with
    | invalid =>
      rw [hc] at h
      cases h
    | number => exact absurd hc (hnum c rfl)
    | dot =>
      rw [hc] at h
      simp only [hdot] at h
      exact ⟨cs, i + 1, by rw [eq_dot_of_handle hc], h⟩
    | blank =>
      rw [← getIpv4AddrLoop, loop_blank hc hstart hend] at h
      cases h

theorem loop_end (hnum : ∀ c, cs.head? = some c → str2Ipv4HandleTable c ≠ .number)
    (hs : v.statu = .number4) (h : getIpv4AddrLoop v i cs = some (r, ap)) :
    ap = v.addr ∧ ∀ c, cs.head? = some c → str2Ipv4HandleTable c = .blank := by
  cases cs with
  | nil =>
    rw [getIpv4AddrLoop, if_pos hs, Option.some.injEq, Prod.mk.injEq] at h
    exact ⟨h.2.symm, fun _ hc => (by cases hc)⟩
  | cons c cs =>
    rw [getIpv4AddrLoop] at h
    cases hc : str2Ipv4HandleTable c with
    | invalid =>
      rw [hc] at h
      cases h
    | number => exact absurd hc (hnum c rfl)
    | dot =>
      rw [hc] at h
      simp only [Ipv4.fetchDot, hs] at h
      cases h
    | blank =>
      rw [hc] at h
      simp only [hs, Option.some.injEq, Prod.mk.injEq] at h
      exact ⟨h.2.symm, fun b hb => by rw [← Option.some.inj hb]; exact hc⟩

theorem loop_blanks : ∀ (cs : List UInt8) {i : Nat}, getIpv4AddrLoop {} i cs = some (r, ap) →
    ∃ blanks rest j, cs = blanks ++ rest ∧ (∀ c ∈ blanks, str2Ipv4HandleTable c = .blank) ∧
      (∀ c, rest.head? = some c → str2Ipv4HandleTable c ≠ .blank) ∧
      getIpv4AddrLoop {} j rest = some (r, ap)
  | [], i, h => ⟨[], [], i, rfl, List.forall_mem_nil _, fun _ hc => (nomatch hc), h⟩
  | c :: cs, i, h => by
    by_cases hc : str2Ipv4HandleTable c = .blank
    · rw [getIpv4AddrLoop, hc] at h
      obtain ⟨blanks, rest, j, rfl, hb, hrest, hloop⟩ := loop_blanks cs h
      exact ⟨c :: blanks, rest, j, rfl, List.forall_mem_cons.mpr ⟨hc, hb⟩, hrest, hloop⟩
    · exact ⟨[], c :: cs, i, rfl, List.forall_mem_nil _,
        fun b hb => by rw [← Option.some.inj hb]; exact hc, h⟩

/-- **受け付けられた文字列は、空白、四つの数、終わりか空白である。** -/
theorem getIpv4Addr_shape (h : getIpv4Addr cs = some (r, ap)) :
    ∃ blanks bs n1 n2 n3 n4 tail, cs = blanks ++ bs ∧
      (∀ c ∈ blanks, str2Ipv4HandleTable c = .blank) ∧ DottedIp bs n1 n2 n3 n4 tail ∧
      ap = digitsValue 10 n1 * 2 ^ 24 + digitsValue 10 n2 * 2 ^ 16 + digitsValue 10 n3 * 2 ^ 8
        + digitsValue 10 n4 := by
  obtain ⟨blanks, bs, _, rfl, hblanks, hb, h0⟩ := loop_blanks cs h
  obtain ⟨n1, s1, _, rfl, h1, hd1, he1, hv1, k1⟩ := loop_number
    (show ReadsNumber fun n => { statu := .number1, number1 := n } from ⟨fun n d => rfl⟩)
    (fun d => rfl) (rfl : Ipv4.fetchDot {} = none)
    (fun c hc hbl => absurd hbl (hb c hc)) (by simp) h0
  obtain ⟨s1, _, rfl, l1⟩ := loop_dot he1 rfl (by simp) (by simp) k1
  obtain ⟨n2, s2, _, rfl, h2, hd2, he2, hv2, k2⟩ := loop_number
    (show ReadsNumber fun n => { statu := .number2, number1 := digitsValue 10 n1, number2 := n }
      from ⟨fun n d => rfl⟩) (fun d => rfl) rfl (fun _ _ _ => by simp) (by simp) l1
  obtain ⟨s2, _, rfl, l2⟩ := loop_dot he2 rfl (by simp) (by simp) k2
  obtain ⟨n3, s3, _, rfl, h3, hd3, he3, hv3, k3⟩ := loop_number
    (show ReadsNumber fun n => { statu := .number3, number1 := digitsValue 10 n1
                                 number2 := digitsValue 10 n2, number3 := n }
      from ⟨fun n d => rfl⟩) (fun d => rfl) rfl (fun _ _ _ => by simp) (by simp) l2
  obtain ⟨s3, _, rfl, l3⟩ := loop_dot he3 rfl (by simp) (by simp) k3
  obtain ⟨n4, tail, _, rfl, h4, hd4, he4, hv4, k4⟩ := loop_number
    (show ReadsNumber fun n => { statu := .number4, number1 := digitsValue 10 n1
                                 number2 := digitsValue 10 n2, number3 := digitsValue 10 n3
                                 number4 := n }
      from ⟨fun n d => rfl⟩) (fun d => rfl) rfl (fun _ _ _ => by simp) (by simp) l3
  obtain ⟨hap, htail⟩ := loop_end he4 rfl k4
  refine ⟨blanks, _, n1, n2, n3, n4, tail, rfl, hblanks, ⟨rfl, ?_, htail⟩, hap⟩
  simp only [List.forall_mem_cons]
  exact ⟨⟨h1, hd1, hv1⟩, ⟨h2, hd2, hv2⟩, ⟨h3, hd3, hv3⟩, ⟨h4, hd4, hv4⟩, List.forall_mem_nil _⟩

/-! ## `inet_addr` と比べる -/

theorem inetAton_dotted {bs n1 n2 n3 n4 tail : List UInt8} (h : DottedIp bs n1 n2 n3 n4 tail) :
    inetAton 3 [] bs
      = (readValue n1).bind fun o1 => (readValue n2).bind fun o2 => (readValue n3).bind fun o3 =>
        (readValue n4).map fun o4 => ((o1 * 256 + o2) * 256 + o3) * 256 + o4 := by
  obtain ⟨hr1, hr2, hr3, hr4, -⟩ := by simpa only [List.forall_mem_cons] using h.runs
  have hblank : AtBlank tail := fun c hc => isSpace_of_blank (h.tail c hc)
  rw [h.eq, inetAton_dot hr1.1 hr1.2.1 hr1.2.2]
  congr 1
  funext o1
  rw [inetAton_dot hr2.1 hr2.2.1 hr2.2.2]
  congr 1
  funext o2
  rw [inetAton_dot hr3.1 hr3.2.1 hr3.2.2]
  congr 1
  funext o3
  rw [inetAton_last hr4.1 hr4.2.1 hr4.2.2 hblank rfl]
  simp

/-- 先頭に空白が無く、`0` で始まる数はどれも 7 以下である。 -/
def PlainIp (bs : List UInt8) : Prop :=
  ∃ n1 n2 n3 n4 tail, DottedIp bs n1 n2 n3 n4 tail ∧ ∀ n ∈ [n1, n2, n3, n4], OctalSafe n

theorem run_unique {n m s t : List UInt8} (hn : ∀ c ∈ n, isDecimal c = true)
    (hm : ∀ c ∈ m, isDecimal c = true) (hs : ∀ c, s.head? = some c → isDecimal c = false)
    (ht : ∀ c, t.head? = some c → isDecimal c = false) (h : n ++ s = m ++ t) : n = m ∧ s = t := by
  obtain ⟨h1, h2⟩ := span_run hn hs
  obtain ⟨h3, h4⟩ := span_run hm ht
  rw [h] at h1 h2
  exact ⟨h1.symm.trans h3, h2.symm.trans h4⟩

theorem not_decimal_dot {s : List UInt8} : ∀ c, (46 :: s).head? = some c → isDecimal c = false := by
  intro c hc
  rw [← Option.some.inj hc]
  decide

theorem DottedIp.unique {bs n1 n2 n3 n4 t m1 m2 m3 m4 u : List UInt8}
    (h : DottedIp bs n1 n2 n3 n4 t) (h' : DottedIp bs m1 m2 m3 m4 u) :
    n1 = m1 ∧ n2 = m2 ∧ n3 = m3 ∧ n4 = m4 := by
  obtain ⟨a1, a2, a3, a4, -⟩ := by simpa only [List.forall_mem_cons] using h.runs
  obtain ⟨b1, b2, b3, b4, -⟩ := by simpa only [List.forall_mem_cons] using h'.runs
  have htail : ∀ {x : List UInt8}, (∀ c, x.head? = some c → str2Ipv4HandleTable c = .blank) →
      ∀ c, x.head? = some c → isDecimal c = false := by
    intro x hx c hc
    by_contra hdec
    have hnum := str2Ipv4HandleTable_number_iff.mpr (Bool.eq_true_of_not_eq_false hdec)
    rw [hx c hc] at hnum
    cases hnum
  obtain ⟨e1, r1⟩ := run_unique a1.2.1 b1.2.1 not_decimal_dot not_decimal_dot
    (h.eq.symm.trans h'.eq)
  obtain ⟨e2, r2⟩ := run_unique a2.2.1 b2.2.1 not_decimal_dot not_decimal_dot (List.cons.inj r1).2
  obtain ⟨e3, r3⟩ := run_unique a3.2.1 b3.2.1 not_decimal_dot not_decimal_dot (List.cons.inj r2).2
  obtain ⟨e4, -⟩ := run_unique a4.2.1 b4.2.1 (htail h.tail) (htail h'.tail) (List.cons.inj r3).2
  exact ⟨e1, e2, e3, e4⟩

theorem PlainIp.head {bs : List UInt8} (h : PlainIp bs) : bs.head?.any isDecimal = true := by
  obtain ⟨n1, n2, n3, n4, tail, hd, -⟩ := h
  obtain ⟨hne, hdec, -⟩ := hd.runs n1 List.mem_cons_self
  obtain ⟨a, m, rfl⟩ := List.exists_cons_of_ne_nil hne
  rw [hd.eq]
  exact hdec a List.mem_cons_self

theorem inetAddr_agrees_iff {s : CStr} (h : getIpv4Addr s.bytes = some (r, ap)) :
    ntohl (inetAddr s) = ap ↔ PlainIp s.bytes := by
  obtain ⟨blanks, bs, n1, n2, n3, n4, tail, heq, hblanks, hd, hap⟩ := getIpv4Addr_shape h
  obtain ⟨⟨-, d1, l1⟩, ⟨-, d2, l2⟩, ⟨-, d3, l3⟩, ⟨-, d4, l4⟩, -⟩ := by
    simpa only [List.forall_mem_cons] using hd.runs
  have hnone : inetAton 3 [] s.bytes = none → ntohl (inetAddr s) ≠ ap := by
    intro hn
    have hval : ntohl (inetAddr s) = 0xffffffff := by
      unfold inetAddr
      rw [hn]
      exact ntohl_htonl (by decide)
    rw [hval, hap]
    omega
  cases blanks with
  | cons b blanks =>
    -- 先頭の空白
    have hhead : s.bytes.head?.any isDecimal = false := by
      rw [heq]
      show isDecimal b = false
      by_contra hdec
      have hnum := str2Ipv4HandleTable_number_iff.mpr (Bool.eq_true_of_not_eq_false hdec)
      rw [hblanks b List.mem_cons_self] at hnum
      cases hnum
    refine iff_of_false (hnone (inetAton_of_not_decimal hhead)) fun hp => ?_
    rw [hp.head] at hhead
    cases hhead
  | nil =>
    rw [List.nil_append] at heq
    have hsafe : PlainIp s.bytes ↔
        OctalSafe n1 ∧ OctalSafe n2 ∧ OctalSafe n3 ∧ OctalSafe n4 := by
      constructor
      · rintro ⟨m1, m2, m3, m4, t, hm, hs⟩
        rw [heq] at hm
        obtain ⟨rfl, rfl, rfl, rfl⟩ := hd.unique hm
        simpa using hs
      · intro hs
        exact ⟨n1, n2, n3, n4, tail, heq ▸ hd, by simpa using hs⟩
    have haton := inetAton_dotted hd
    rw [← heq] at haton
    rw [hsafe, ← readValue_eq_iff d1, ← readValue_eq_iff d2, ← readValue_eq_iff d3,
      ← readValue_eq_iff d4]
    cases h1 : readValue n1 with
    | none => exact iff_of_false (hnone (by rw [haton, h1]; rfl)) fun hs => by simp at hs
    | some o1 =>
    cases h2 : readValue n2 with
    | none => exact iff_of_false (hnone (by rw [haton, h1, h2]; rfl)) fun hs => by simp at hs
    | some o2 =>
    cases h3 : readValue n3 with
    | none => exact iff_of_false (hnone (by rw [haton, h1, h2, h3]; rfl)) fun hs => by simp at hs
    | some o3 =>
    cases h4 : readValue n4 with
    | none =>
      exact iff_of_false (hnone (by rw [haton, h1, h2, h3, h4]; rfl)) fun hs => by simp at hs
    | some o4 =>
      have b1 := readValue_le h1
      have b2 := readValue_le h2
      have b3 := readValue_le h3
      have b4 := readValue_le h4
      have hval : ntohl (inetAddr s) = ((o1 * 256 + o2) * 256 + o3) * 256 + o4 := by
        unfold inetAddr
        rw [haton, h1, h2, h3, h4]
        exact ntohl_htonl (show ((o1 * 256 + o2) * 256 + o3) * 256 + o4 < 2 ^ 32 by omega)
      simp only [Option.some.injEq]
      rw [hval, hap]
      omega

end

end Esq
