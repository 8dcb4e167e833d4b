import Esq.PostData.Join

/-!
# 切れた token

token の途中で buffer が終われば、値の外では誤りになる。区切りの行の途中では、そこまでを値として渡すか、
最後の byte を見ないまま区切りの行を渡す。
-/

namespace Esq

open Infra

section

variable {σ : Type*} {beyond : Nat → UInt8} {buf boundary line r v w : List UInt8}
  {cb : PostDataParserAppCb σ} {s : PdpState σ} {e : PostEt} {ts : List PostToken} {n : Nat}

/-! ## 誤りになる残り -/

variable (beyond boundary cb)

theorem pdpTurn_boundary_exx (hi : s.i ≤ buf.length) (hlast : s.lastItemType = .boundary)
    (hdfd : ¬contentDfd <+: buf.drop s.i) (hfinish : buf.drop s.i ≠ finishMark) :
    ∃ s', pdpTurn beyond buf cb boundary s = (.exx, s') := by
  obtain ⟨s₀, hlook, hs₀, -⟩ := looksAt_false beyond s hdfd
  unfold pdpTurn
  rw [hlast]
  dsimp only
  rw [hlook]
  dsimp only
  rw [if_neg (by decide), if_neg]
  · exact ⟨s₀, rfl⟩
  · rintro ⟨hlen, hread⟩
    rw [hs₀] at hlen hread
    rw [← hlen, readBytes_rest beyond hi] at hread
    exact hfinish hread

theorem pdpTurn_name_exx (hlast : s.lastItemType = .contentFormData)
    (hname : nameS <+: buf.drop s.i → 34 ∉ buf.drop (s.i + nameS.length)) :
    ∃ s', pdpTurn beyond buf cb boundary s = (.exx, s') := by
  obtain ⟨s₀, hlook, hs₀, -⟩ := looksAt_spec beyond buf nameS s le_rfl
  unfold pdpTurn
  rw [hlast]
  dsimp only
  rw [hlook]
  dsimp only
  split
  · next hfound =>
    rw [hs₀, getNameEnd_none (hname (of_decide_eq_true hfound).2), if_pos (by decide)]
    exact ⟨s₀, rfl⟩
  · exact ⟨s₀, rfl⟩

theorem pdpTurn_filename_exx (hlast : s.lastItemType = .name)
    (hname : fnameS <+: buf.drop s.i → 34 ∉ buf.drop (s.i + fnameS.length))
    (hempty : ¬emptyLine <+: buf.drop s.i) :
    ∃ s', pdpTurn beyond buf cb boundary s = (.exx, s') := by
  obtain ⟨s₀, hlook, hs₀, -⟩ := looksAt_spec beyond buf fnameS s le_rfl
  obtain ⟨s₁, hlook₁, -⟩ := looksAt_false beyond s₀ (by rw [hs₀]; exact hempty)
  unfold pdpTurn
  rw [hlast]
  dsimp only
  rw [hlook]
  dsimp only
  split
  · next hfound =>
    rw [hs₀, getNameEnd_none (hname (of_decide_eq_true hfound).2), if_pos (by decide)]
    exact ⟨s₀, rfl⟩
  · rw [hlook₁]
    exact ⟨s₁, rfl⟩

theorem pdpTurn_contentType_exx (hlast : s.lastItemType = .filename)
    (hfind : memmem (readBytes beyond buf (s.i + (contentTypePrefix.length + 1)) (buf.length - s.i)) crlf
      = none) :
    ∃ s', pdpTurn beyond buf cb boundary s = (.exx, s') := by
  obtain ⟨s₀, hlook, hs₀, -⟩ := looksAt_spec beyond buf contentTypePrefix s
    (Nat.le_add_right contentTypePrefix.length 2)
  unfold pdpTurn
  rw [hlast]
  dsimp only
  rw [hlook]
  dsimp only
  split
  · rw [hs₀, hfind]
    exact ⟨_, rfl⟩
  · exact ⟨s₀, rfl⟩

theorem pdpTurn_emptyType_exx (hlast : s.lastItemType = .contentType)
    (hempty : ¬emptyLine <+: buf.drop s.i) :
    ∃ s', pdpTurn beyond buf cb boundary s = (.exx, s') := by
  obtain ⟨s₀, hlook, -⟩ := looksAt_false beyond s hempty
  unfold pdpTurn
  rw [hlast]
  dsimp only
  rw [hlook]
  exact ⟨s₀, rfl⟩

/-! ## 切れた token を読む -/

variable {beyond boundary cb}

theorem not_prefix_of_short {text : List UInt8} (h : r.length < text.length) : ¬text <+: r :=
  fun hp => absurd hp.length_le (by omega)

theorem quote_notMem_short {text : List UInt8} (hv : 34 ∉ v) (hr : r <+: text ++ (v ++ [34]))
    (hne : r ≠ text ++ (v ++ [34])) (htext : text <+: r) : 34 ∉ r.drop text.length := by
  obtain ⟨u, rfl⟩ := htext
  rw [List.drop_left]
  rw [List.prefix_append_right_inj, List.prefix_concat_iff] at hr
  rcases hr with rfl | hu
  · exact absurd rfl hne
  · exact fun h => hv (hu.subset h)

theorem readBytes_zero (buf : List UInt8) (k n : Nat) :
    ∃ m, readBytes (fun _ => 0) buf k n = (buf.drop k).take n ++ List.replicate m 0 := by
  refine ⟨n - (buf.length - k), List.ext_getElem ?_ fun j hj hj' => ?_⟩
  · rw [length_readBytes, List.length_append, List.length_take, List.length_drop, List.length_replicate]
    omega
  · rw [length_readBytes] at hj
    by_cases hlt : k + j < buf.length
    · rw [List.getElem_append_left (by rw [List.length_take, List.length_drop]; omega)]
      simp [readBytes, byteAt, hlt]
    · rw [List.getElem_append_right (by rw [List.length_take, List.length_drop]; omega)]
      simp [readBytes, byteAt, hlt]

theorem pdpTurn_type_short (hlast : s.lastItemType = .filename)
    (ht : Tokens line .filename (.contentType v :: ts))
    (hr : buf.drop s.i <+: contentTypePrefix ++ (v ++ [13])) (boundary : List UInt8)
    (cb : PostDataParserAppCb σ) : ∃ s', pdpTurn (fun _ => 0) buf cb boundary s = (.exx, s') := by
  refine pdpTurn_contentType_exx _ _ _ hlast ?_
  cases ht with
  | contentType hne hs =>
    obtain ⟨c, v, rfl⟩ := List.exists_cons_of_ne_nil hne
    have hnone : findInfix crlf (v ++ [13]) = none :=
      findInfix_eq_none_of_prefix (List.cons_ne_nil _ _) hs ⟨[10], rfl⟩ (by decide)
    have hdrop : buf.drop (s.i + (contentTypePrefix.length + 1)) <+: v ++ [13] := by
      have h := hr.drop (contentTypePrefix.length + 1)
      rwa [List.drop_drop, List.drop_length_add_append] at h
    obtain ⟨m, hread⟩ := readBytes_zero buf (s.i + (contentTypePrefix.length + 1)) (buf.length - s.i)
    rw [hread]
    refine findInfix_append_eq_none (u := [13]) (findInfix_none_of_isPrefix (List.cons_ne_nil _ _) hnone
      ((List.take_prefix _ _).trans hdrop)) ?_
    rw [List.mem_replicate]
    exact fun h => absurd h.2 (by decide)

theorem pdpTurn_overrun (hcb : ∀ a e b, (cb a e b).1 = 0) (hi : s.i ≤ buf.length)
    (hlast : s.lastItemType = .emptyLine ∨ s.lastItemType = .value) (hv : Delimited line v)
    (hrest : buf.drop s.i = v ++ delimiter line) (beyond : Nat → UInt8) :
    ∃ s', pdpTurn beyond buf cb (delimiter line) s = (.next, s') ∧ s'.lastItemType = .boundary ∧
      buf.length < s'.i := by
  have hlen := congrArg List.length hrest
  rw [List.length_drop, List.length_append] at hlen
  have hfind : memmem (v ++ delimiter line) (delimiter line) = some v.length := hv
  have hboth : ∃ s', andThen (consumeItem beyond buf cb (s.read s.i (buf.length - s.i)) .value v.length)
      (fun s => consumeItem beyond buf cb s .boundary ((delimiter line).length + 1)) = (.next, s') ∧
        s'.lastItemType = .boundary ∧ buf.length < s'.i := by
    obtain ⟨s', hs', hlast', hi'⟩ := valueBoundary_took hcb beyond buf (delimiter line)
      (s.read s.i (buf.length - s.i)) v.length
    refine ⟨s', hs', hlast', ?_⟩
    rw [hi', show (s.read s.i (buf.length - s.i)).i = s.i from rfl]
    omega
  unfold pdpTurn
  rcases hlast with hlast | hlast
  · rw [hlast]
    dsimp only
    rw [readBytes_rest beyond hi, hrest, hfind]
    exact hboth
  · rw [hlast]
    dsimp only
    rw [readBytes_rest beyond hi, hrest, hfind]
    cases v with
    | nil =>
      obtain ⟨s', hs', htook⟩ := consumeItem2_took hcb beyond buf (s.read s.i (buf.length - s.i)) .boundary s.i
        (show ((delimiter line).length : Int) + 1 = ((delimiter line).length + 1 : Nat) by omega)
        (show ((delimiter line).length : Int) + 1 = ((delimiter line).length + 1 : Nat) by omega)
      refine ⟨s', hs', htook.last, ?_⟩
      rw [htook.i, show (s.read s.i (buf.length - s.i)).i = s.i from rfl]
      rw [List.length_nil] at hlen
      omega
    | cons c v => exact hboth

end

end Esq
