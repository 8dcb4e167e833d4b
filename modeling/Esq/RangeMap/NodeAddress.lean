import Esq.Libs.Ipv4Text
import Esq.RangeMap.Lookup

/-!
# node の番地

`range_map_add_node` は、同じ `ip_str` を `get_ipv4_addr` と libc の `inet_addr` で二度読み、一方を `ip` に、
他方を `address` に入れる。接続先と `RM_NODE_ME` は `address` で、重複と bucket の検索は `ip` で決まる。
-/

namespace Esq

def Env.libc (env : Env) : Env := { env with inetAddr := Esq.inetAddr }

section

variable {env : Env} {oracle : Option Nat} {st st' : RangeMaps} {mapName ipStr hashString : CStr}
  {port : Int} {flags : BitVec 32} {params : MkcParams}

theorem getIpv4Addr_of_translate (h : translateMkcParams ipStr hashString = .ok params) :
    ∃ r, getIpv4Addr ipStr.bytes = some (r, params.ip) := by
  unfold translateMkcParams at h
  simp only at h
  split at h
  · cases h
  · next hl =>
    split at h
    · cases h
    · next r ip hip =>
      have htake : ipStr.bytes.take (ipStr.strnlen 20) = ipStr.bytes := by
        refine List.take_of_length_le ?_
        unfold CStr.strnlen at hl ⊢
        omega
      rw [htake] at hip
      split at h
      · cases h
      · split at h
        · cases h
        · split at h
          · cases h
          · split at h
            · cases h
            · cases h
              exact ⟨r, hip⟩

theorem rangeMapNewNode_address (env : Env) (mapName ipStr hashString : CStr) (port : Int)
    (flags : BitVec 32) (params : MkcParams) :
    (rangeMapNewNode env mapName ipStr hashString port flags params).address.sinAddr
        = env.inetAddr ipStr ∧
      (rangeMapNewNode env mapName ipStr hashString port flags params).ip = params.ip := by
  unfold rangeMapNewNode
  simp only
  split <;> exact ⟨rfl, rfl⟩

end

/-- **足した node の `address` が `ip` と同じ番地を表すのは、`ip_str` が条件を満たすときに限る。** -/
theorem add_node_address_iff (env : Env) (oracle : Option Nat) (st st' : RangeMaps)
    (mapName ipStr : CStr) (port : Int) (flags : BitVec 32) (hashString : CStr)
    (hadd : rangeMapAddNode env.libc oracle st mapName ipStr port flags hashString
      = (none, st')) :
    ∃ p, oracle = some p ∧
      (ntohl (st'.node p).address.sinAddr = (st'.node p).ip ↔ PlainIp ipStr.bytes) := by
  unfold rangeMapAddNode at hadd
  cases ht : translateMkcParams ipStr hashString with
  | error errs =>
    rw [ht] at hadd
    cases hadd
  | ok params =>
    simp only [ht] at hadd
    split at hadd
    · cases hadd
    · next i hi =>
      split at hadd
      · cases hadd
      · split at hadd
        · cases hadd
        · next p hp =>
          cases hadd
          obtain ⟨r, hip⟩ := getIpv4Addr_of_translate ht
          obtain ⟨haddr, hnip⟩ := rangeMapNewNode_address env.libc mapName ipStr hashString port
            flags params
          have hnode : (st.joinAllList i p (rangeMapNewNode env.libc mapName ipStr hashString port
              flags params)).node p = { rangeMapNewNode env.libc mapName ipStr hashString port
              flags params with allNodeListNext := (st.slot i).allList } :=
            Function.update_self ..
          refine ⟨p, (RangeMaps.malloc_eq_some hp).1, ?_⟩
          rw [hnode]
          show ntohl (rangeMapNewNode env.libc mapName ipStr hashString port flags
            params).address.sinAddr = (rangeMapNewNode env.libc mapName ipStr hashString port flags
            params).ip ↔ _
          rw [haddr, hnip]
          exact inetAddr_agrees_iff hip

def addressSample : RangeMaps := rangeMapRun .init [.new (.ofBytes [97])]

/-- `1.1.1.1` -/
theorem add_node_address_iff_sample :
    ∃ p, some 100 = some p ∧
      (ntohl ((rangeMapAddNode Env.remote.libc (some 100) addressSample ⟨[97], by decide⟩
          ⟨[49, 46, 49, 46, 49, 46, 49], by decide⟩ 80 0 ⟨[120], by decide⟩).2.node
            p).address.sinAddr
        = ((rangeMapAddNode Env.remote.libc (some 100) addressSample ⟨[97], by decide⟩
          ⟨[49, 46, 49, 46, 49, 46, 49], by decide⟩ 80 0 ⟨[120], by decide⟩).2.node p).ip ↔
        PlainIp [49, 46, 49, 46, 49, 46, 49]) :=
  add_node_address_iff .remote (some 100) addressSample _ ⟨[97], by decide⟩
    ⟨[49, 46, 49, 46, 49, 46, 49], by decide⟩ 80 0 ⟨[120], by decide⟩
    (Prod.ext (by decide +kernel) rfl)

/-- **`010.1.1.1` の node は `ip` が 10.1.1.1 で、接続先は 8.1.1.1 である。** -/
theorem octal_node_address :
    (rangeMapAddNode Env.remote.libc (some 100) addressSample ⟨[97], by decide⟩
        ⟨[48, 49, 48, 46, 49, 46, 49, 46, 49], by decide⟩ 80 0 ⟨[120], by decide⟩).1 = none ∧
      ((rangeMapAddNode Env.remote.libc (some 100) addressSample ⟨[97], by decide⟩
        ⟨[48, 49, 48, 46, 49, 46, 49, 46, 49], by decide⟩ 80 0 ⟨[120], by decide⟩).2.node 100).ip
          = 0x0a010101 ∧
      ntohl ((rangeMapAddNode Env.remote.libc (some 100) addressSample ⟨[97], by decide⟩
        ⟨[48, 49, 48, 46, 49, 46, 49, 46, 49], by decide⟩ 80 0 ⟨[120], by decide⟩).2.node
          100).address.sinAddr = 0x08010101 := by
  refine ⟨?_, ?_, ?_⟩ <;> decide +kernel

end Esq
