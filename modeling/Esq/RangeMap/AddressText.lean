import Esq.Bee.FileName
import Esq.Libs.Ipv4Grammar
import Esq.RangeMap.Dump
import Esq.RangeMap.NodeAddress

/-!
# 番地の文字列

`range_map_dump_node_to_buffer` が `%lu.%lu.%lu.%lu` で書く番地を `get_ipv4_addr` で読み戻す。

`get_ipv4_addr` は 255 を読まないが、`range_map_add_node` が node に入れる番地は、もともと
`get_ipv4_addr` が読んだものである。
-/

namespace Esq

def dottedText (ip : Nat) : List UInt8 :=
  decimal (ip / 2 ^ 24 % 2 ^ 8) ++ 46 :: (decimal (ip / 2 ^ 16 % 2 ^ 8) ++
    46 :: (decimal (ip / 2 ^ 8 % 2 ^ 8) ++ 46 :: decimal (ip % 2 ^ 8)))

theorem addressText_eq (ip : Nat) (port : Int) :
    addressText ip port = dottedText ip ++ ([58] ++ decimalInt port ++ [58]) := by
  simp [addressText, dottedText]

/-! ## 十進の数 -/

theorem digitsValue_chars (ds : List Char) : ∀ {n : Nat}, (∀ c ∈ ds, c.isDigit = true) →
    (ds.map fun c => UInt8.ofNat c.toNat).foldl (fun a c => a * 10 + digitValue c) n
      = Nat.ofDigitChars 10 ds n := by
  induction ds with
  | nil =>
    intro n _
    rw [Nat.ofDigitChars_nil]
    rfl
  | cons c ds ih =>
    intro n hd
    obtain ⟨hl, hu⟩ := digit_range (hd c List.mem_cons_self)
    have hc : (UInt8.ofNat c.toNat).toNat = c.toNat := by
      rw [UInt8.toNat_ofNat']
      omega
    rw [List.map_cons, List.foldl_cons, ih fun d hd' => hd d (List.mem_cons_of_mem c hd'),
      digitValue_of_range (isNumber hl hu), hc, Nat.ofDigitChars_cons, Nat.mul_comm n 10]
    rfl

theorem decimal_run (n : Nat) :
    decimal n ≠ [] ∧ (∀ c ∈ decimal n, 48 ≤ c ∧ c ≤ 57) ∧ digitsValue 10 (decimal n) = n := by
  have hdigits : ∀ c ∈ Nat.toDigits 10 n, c.isDigit = true := fun c hc =>
    Nat.isDigit_of_mem_toDigits (by decide) (by decide) hc
  unfold decimal
  refine ⟨?_, ?_, ?_⟩
  · rw [ne_eq, List.map_eq_nil_iff]
    exact Nat.toDigits_ne_nil
  · intro b hb
    obtain ⟨c, hc, rfl⟩ := List.mem_map.mp hb
    obtain ⟨hl, hu⟩ := digit_range (hdigits c hc)
    exact isNumber hl hu
  · exact (digitsValue_chars _ hdigits).trans Nat.ofDigitChars_ten_toDigits

/-! ## 読み戻す -/

def ReadableIp (ip : Nat) : Prop :=
  ip < 2 ^ 32 ∧ ip / 2 ^ 24 % 2 ^ 8 ≤ 254 ∧ ip / 2 ^ 16 % 2 ^ 8 ≤ 254 ∧ ip / 2 ^ 8 % 2 ^ 8 ≤ 254 ∧
    ip % 2 ^ 8 ≤ 254

theorem readableIp_value (w : Ipv4Written) : ReadableIp w.value := by
  obtain ⟨⟨-, -, v1⟩, ⟨-, -, v2⟩, ⟨-, -, v3⟩, ⟨-, -, v4⟩, -⟩ := by
    simpa only [List.forall_mem_cons] using w.runs
  unfold ReadableIp Ipv4Written.value
  omega

theorem getIpv4Addr_dottedText {ip : Nat} (h : ReadableIp ip) :
    getIpv4Addr (dottedText ip) = some ((dottedText ip).length, ip) := by
  obtain ⟨hlt, h1, h2, h3, h4⟩ := h
  have hrun : ∀ {n : Nat}, n ≤ 254 → decimal n ≠ [] ∧ (∀ c ∈ decimal n, 48 ≤ c ∧ c ≤ 57) ∧
      digitsValue 10 (decimal n) ≤ 254 := by
    intro n hn
    obtain ⟨hne, hd, hv⟩ := decimal_run n
    exact ⟨hne, hd, hv.le.trans hn⟩
  refine getIpv4Addr_iff.mpr ⟨⟨[], decimal (ip / 2 ^ 24 % 2 ^ 8), decimal (ip / 2 ^ 16 % 2 ^ 8),
    decimal (ip / 2 ^ 8 % 2 ^ 8), decimal (ip % 2 ^ 8), [], fun _ hc => (nomatch hc), ?_,
    fun _ hc => (nomatch hc)⟩, ?_, ?_, ?_⟩
  · simp only [List.forall_mem_cons]
    exact ⟨hrun h1, hrun h2, hrun h3, hrun h4, List.forall_mem_nil _⟩
  · simp [Ipv4Written.bytes, Ipv4Written.dotted, dottedText]
  · simp [Ipv4Written.len, Ipv4Written.dotted, dottedText]
  · simp only [Ipv4Written.value, (decimal_run _).2.2]
    omega

/--
**`get_ipv4_addr` は文法に合う文字列をちょうど受け、番地の終わりと番地を返す。** 空白、点で区切られた
254 以下の四つの数、文字列の終わりか空白、という文法である。`unsigned int` の計算は桁あふれせず、
`range_map_add_node` が作る node の番地は、`range_map_dump_node_to_buffer` の書く文字列から読み戻せる。
-/
theorem ipv4_addr_grammar :
    (∀ (buf : List UInt8) (r ap : Nat), getIpv4AddrLoopWrapped {} 0 buf = some (r, ap) ↔
      ∃ w : Ipv4Written, buf = w.bytes ∧ r = w.len ∧ ap = w.value) ∧
    (∀ buf, getIpv4AddrLoopWrapped {} 0 buf = getIpv4Addr buf) ∧
    (∀ (env : Env) (mapName ipStr hashString : CStr) (port : Int) (flags : BitVec 32)
      (params : MkcParams), translateMkcParams ipStr hashString = .ok params →
      ∃ ip rest, ip = (rangeMapNewNode env mapName ipStr hashString port flags params).ip ∧
        addressText ip port = dottedText ip ++ rest ∧
        getIpv4Addr (dottedText ip) = some ((dottedText ip).length, ip)) := by
  refine ⟨fun buf r ap => ?_, getIpv4AddrLoopWrapped_init, ?_⟩
  · rw [getIpv4AddrLoopWrapped_init]
    exact getIpv4Addr_iff
  · intro env mapName ipStr hashString port flags params h
    obtain ⟨r, hr⟩ := getIpv4Addr_of_translate h
    obtain ⟨w, -, -, hw⟩ := getIpv4Addr_iff.mp hr
    refine ⟨_, _, rfl, addressText_eq _ _, getIpv4Addr_dottedText ?_⟩
    rw [(rangeMapNewNode_address env mapName ipStr hashString port flags params).2, hw]
    exact readableIp_value w

/-- `1.1.1.1` の node は、番地を読み戻せる。 -/
theorem ipv4_addr_grammar_sample : ∃ ip rest,
    ip = (rangeMapNewNode Env.remote ⟨[97], by decide⟩ ⟨[49, 46, 49, 46, 49, 46, 49], by decide⟩
      ⟨[120], by decide⟩ 80 0 ⟨0x01010101, [], 0⟩).ip ∧
    addressText ip 80 = dottedText ip ++ rest ∧
    getIpv4Addr (dottedText ip) = some ((dottedText ip).length, ip) :=
  ipv4_addr_grammar.2.2 Env.remote ⟨[97], by decide⟩ ⟨[49, 46, 49, 46, 49, 46, 49], by decide⟩
    ⟨[120], by decide⟩ 80 0 ⟨0x01010101, [], 0⟩ rfl

end Esq
