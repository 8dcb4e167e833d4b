import Esq.PostData.Short

/-!
# 悪い切れ目

buffer が切れ目でない所で終わると、memory が 0 のとき、誤りになるか、値に余分な byte が付くか、次の buffer が
区切りの行の最後の byte から始まる。
-/

namespace Esq

open Infra

section

variable {σ : Type*} {beyond : Nat → UInt8} {buf line v w : List UInt8}
  {cb : PostDataParserAppCb σ} {s : PdpState σ} {e : PostEt} {ts us : List PostToken} {x : PostToken}
  {k : UInt8} {n : Nat}

theorem not_same_value (h : Tokens line e (.value v k :: ts)) (hw : w ≠ []) (fs : List PostElement) :
    ¬Same e (⟨.value, v ++ w⟩ :: fs) (tokenElements line (.value v k :: ts)) := by
  have hne : joinValues (⟨.value, v ++ w⟩ :: fs)
      ≠ joinValues (⟨.value, v⟩ :: ⟨.boundary, delimiter line ++ [k]⟩ :: tokenElements line ts) := by
    obtain ⟨c, r, hshape⟩ := joinValues_value fs
    rw [hshape, joinValues, joinValues_cons_of_ne (y := ⟨.boundary, delimiter line ++ [k]⟩)
      (fun h => by cases h)]
    simp [hw]
  cases h with
  | value hs h => exact hne
  | rest hs h =>
    rw [Same, if_pos rfl]
    refine fun heq => hne ?_
    rwa [joinValues_value_value, tokenElements_cons, PostToken.elements, List.cons_append,
      joinValues_value_value] at heq

theorem pdpTurn_value_short (hcb : ∀ a e b, (cb a e b).1 = 0) (hi : s.i ≤ buf.length)
    (hlast : s.lastItemType = .emptyLine ∨ s.lastItemType = .value) (hs : Delimited line v)
    (hr : buf.drop s.i <+: v ++ (delimiter line ++ [k])) (hne : buf.drop s.i ≠ v ++ (delimiter line ++ [k]))
    (hlong : v.length < (buf.drop s.i).length) :
    (∃ s' w, buf.drop s.i = v ++ w ∧ w ≠ [] ∧
        pdpTurn beyond buf cb (delimiter line) s = (.ok, s') ∧
        elements s'.events = elements s.events ++ [⟨.value, v ++ w⟩]) ∨
      ∃ s', buf.drop s.i = v ++ delimiter line ∧
        pdpTurn beyond buf cb (delimiter line) s = (.next, s') ∧ s'.lastItemType = .boundary ∧
        buf.length < s'.i := by
  obtain ⟨w, hw⟩ := List.prefix_of_prefix_length_le (List.prefix_append v _) hr hlong.le
  have hwne : w ≠ [] := by
    rintro rfl
    rw [← hw, List.append_nil] at hlong
    exact absurd hlong (lt_irrefl _)
  rw [← hw, List.prefix_append_right_inj, List.prefix_concat_iff] at hr
  rcases hr with rfl | hr
  · exact absurd hw.symm hne
  · by_cases hwhole : w = delimiter line
    · subst hwhole
      obtain ⟨s', hturn, hs'⟩ := pdpTurn_overrun hcb hi hlast hs hw.symm beyond
      exact Or.inr ⟨s', hw.symm, hturn, hs'⟩
    · obtain ⟨s', hturn, htook⟩ := pdpTurn_part hcb hi beyond hlast (hw ▸ hs.find_none hr hwhole)
      refine Or.inl ⟨s', w, hw.symm, hwne, hturn, ?_⟩
      rw [htook.elements, hw]

theorem pdpTurn_short (hcb : ∀ a e b, (cb a e b).1 = 0) (hi : s.i ≤ buf.length)
    (h : Tokens line s.lastItemType (x :: ts)) (hr : buf.drop s.i <+: x.render line)
    (hne : buf.drop s.i ≠ x.render line)
    (hvalue : ∀ v k, x = .value v k → v.length < (buf.drop s.i).length) :
    (∃ s', pdpTurn (fun _ => 0) buf cb (delimiter line) s = (.exx, s')) ∨
      (∃ s' v k w, x = .value v k ∧ buf.drop s.i = v ++ w ∧ w ≠ [] ∧
        pdpTurn (fun _ => 0) buf cb (delimiter line) s = (.ok, s') ∧
        elements s'.events = elements s.events ++ [⟨.value, v ++ w⟩]) ∨
      ∃ s' v k, x = .value v k ∧ buf.drop s.i = v ++ delimiter line ∧
        pdpTurn (fun _ => 0) buf cb (delimiter line) s = (.next, s') ∧ s'.lastItemType = .boundary ∧
        buf.length < s'.i := by
  have hshort : (buf.drop s.i).length < (x.render line).length :=
    lt_of_le_of_ne hr.length_le fun hlen => hne (hr.eq_of_length hlen)
  generalize hlast : s.lastItemType = e at h
  have hquote : ∀ {text v : List UInt8}, 34 ∉ v → x.render line = text ++ (v ++ [34]) →
      text <+: buf.drop s.i → 34 ∉ buf.drop (s.i + text.length) := by
    intro text v hv hx htext
    rw [hx] at hr hne
    rw [← List.drop_drop]
    exact quote_notMem_short hv hr hne htext
  cases h with
  | finish =>
    refine Or.inl (pdpTurn_boundary_exx _ _ _ hi hlast
      (not_prefix_of_short (hshort.trans (show finishMark.length < contentDfd.length by decide))) hne)
  | formData =>
    refine Or.inl (pdpTurn_boundary_exx _ _ _ hi hlast (not_prefix_of_short hshort) fun heq => ?_)
    rw [heq] at hr
    exact absurd (List.cons_prefix_cons.mp hr).1 (by decide)
  | name hs => exact Or.inl (pdpTurn_name_exx _ _ _ hlast (hquote hs rfl))
  | filename hs =>
    refine Or.inl (pdpTurn_filename_exx _ _ _ hlast (hquote hs rfl) fun hempty => ?_)
    exact absurd (List.cons_prefix_cons.mp (hempty.trans hr)).1 (by decide)
  | @contentType v ts hne' hs h =>
    refine Or.inl (pdpTurn_type_short hlast (.contentType hne' hs h) (hr.trans ?_) _ cb)
    rw [← List.append_assoc]
    exact List.prefix_append _ _
  | emptyName =>
    refine Or.inl (pdpTurn_filename_exx _ _ _ hlast (fun hname => ?_) (not_prefix_of_short hshort))
    exact absurd (List.cons_prefix_cons.mp (hname.trans hr)).1 (by decide)
  | emptyType => exact Or.inl (pdpTurn_emptyType_exx _ _ _ hlast (not_prefix_of_short hshort))
  | value hs =>
    rcases pdpTurn_value_short hcb hi (Or.inl hlast) hs hr hne (hvalue _ _ rfl) with
      ⟨s', w, hw⟩ | ⟨s', hs'⟩
    · exact Or.inr (Or.inl ⟨s', _, _, w, rfl, hw⟩)
    · exact Or.inr (Or.inr ⟨s', _, _, rfl, hs'⟩)
  | rest hs =>
    rcases pdpTurn_value_short hcb hi (Or.inr hlast) hs hr hne (hvalue _ _ rfl) with
      ⟨s', w, hw⟩ | ⟨s', hs'⟩
    · exact Or.inr (Or.inl ⟨s', _, _, w, rfl, hw⟩)
    · exact Or.inr (Or.inr ⟨s', _, _, rfl, hs'⟩)

/-! ## 切れ目の前と後 -/

theorem Cut.drop (h : Cut line ts n us) : (renderTokens line ts).drop n = renderTokens line us := by
  induction h with
  | here ts => rfl
  | @value v w k ts hv =>
    simp only [renderTokens_cons, PostToken.render, List.append_assoc, List.drop_left]
  | next h hct ih => rw [renderTokens_cons, List.drop_length_add_append, ih]

theorem Cut.trans {ts' : List PostToken} {m : Nat} (h : Cut line ts n us) (h' : Cut line us m ts') :
    Cut line ts (n + m) ts' := by
  induction h with
  | here ts => rwa [Nat.zero_add]
  | @value v w k ts hv =>
    generalize hus : PostToken.value w k :: ts = us at h'
    cases h' with
    | here =>
      subst hus
      exact .value hv
    | @value v' w' k' ts hv' =>
      obtain ⟨hx, rfl⟩ := List.cons.inj hus
      obtain ⟨rfl, rfl⟩ := PostToken.value.inj hx
      rw [← List.append_assoc, ← List.length_append]
      exact .value (fun h => hv (List.append_eq_nil_iff.mp h).1)
    | @next x ts₁ _ m h' hct =>
      obtain ⟨rfl, rfl⟩ := List.cons.inj hus
      have hlen : v.length + ((PostToken.render line (.value w k)).length + m)
          = (PostToken.render line (.value (v ++ w) k)).length + m := by
        simp only [PostToken.render, List.length_append]
        omega
      rw [hlen]
      exact .next h' fun _ s hs => by cases hs
  | next h hct ih =>
    rw [Nat.add_assoc]
    exact .next (ih h') fun hzero => hct (by omega)

theorem Cut.of_trans {ts' : List PostToken} {m : Nat} (h : Cut line ts n us)
    (h' : Cut line ts (n + m) ts') : Cut line us m ts' := by
  induction h with
  | here ts => rwa [Nat.zero_add] at h'
  | @value v w k ts hv =>
    generalize hus : PostToken.value (v ++ w) k :: ts = us, hn : v.length + m = n at h'
    cases h' with
    | here =>
      have hpos : 0 < v.length := List.length_pos_iff.mpr hv
      omega
    | @value v' w' k' ts hv' =>
      obtain ⟨hx, rfl⟩ := List.cons.inj hus
      obtain ⟨hvw, rfl⟩ := PostToken.value.inj hx
      obtain ⟨u, rfl⟩ : v <+: v' := by
        refine List.prefix_of_prefix_length_le (List.prefix_append v w) ?_ (by omega)
        rw [hvw]
        exact List.prefix_append _ _
      rw [List.append_assoc] at hvw
      rw [List.append_cancel_left hvw]
      have hm : m = u.length := by
        rw [List.length_append] at hn
        omega
      rw [hm]
      by_cases hu : u = []
      · rw [hu]
        exact .here _
      · exact .value hu
    | @next x ts₁ _ j h' hct =>
      obtain ⟨rfl, rfl⟩ := List.cons.inj hus
      have hm : m = (PostToken.render line (.value w k)).length + j := by
        simp only [PostToken.render, List.length_append] at hn ⊢
        omega
      rw [hm]
      exact .next h' fun _ s hs => by cases hs
  | @next x ts ts₁ n h hct ih =>
    have hpos : 0 < (x.render line).length := List.length_pos_iff.mpr (x.render_ne_nil line)
    generalize hus : x :: ts = us, hj : (x.render line).length + n + m = j at h'
    cases h' with
    | here => omega
    | @value v' w' k' ts hv' =>
      obtain ⟨rfl, rfl⟩ := List.cons.inj hus
      simp only [PostToken.render, List.length_append] at hj
      simp only [List.length_singleton] at hj
      omega
    | @next y ts₂ _ i h' hct' =>
      obtain ⟨rfl, rfl⟩ := List.cons.inj hus
      have hi : i = n + m := by omega
      rw [hi] at h'
      exact ih h'

/-! ## 悪い切れ目まで読む -/

/-- 切れ目でない所まで読んだ後。誤りか、値に余分な byte が付いたか、区切りの行の最後の byte が残った。 -/
def Broken (line : List UInt8) (e : PostEt) (ts : List PostToken) (n : Nat) (events : List PdpEvent)
    (t : PdpNext × PdpState σ) : Prop :=
  t.1 = .exx ∨
    (t.1 = .ok ∧ ∃ es, elements t.2.events = elements events ++ es ∧
      ∀ fs, ¬Same e (es ++ fs) (tokenElements line ts)) ∨
    (t.1 = .ok ∧ t.2.lastItemType = .boundary ∧
      ∃ k us, (renderTokens line ts).drop n = k :: renderTokens line us ∧ Tokens line .boundary us)

theorem Broken.cons {events : List PdpEvent} {t : PdpNext × PdpState σ} (ht : Tokens line e (x :: ts))
    (hel : elements s.events = elements events ++ x.emitted line e)
    (h : Broken line x.after ts n s.events t) :
    Broken line e (x :: ts) ((x.render line).length + n) events t := by
  rcases h with hexx | ⟨hok, es, hes, hno⟩ | ⟨hok, hlast, k, us, hdrop, hus⟩
  · exact Or.inl hexx
  · refine Or.inr (Or.inl ⟨hok, x.emitted line e ++ es, ?_, fun fs hsame => hno fs ?_⟩)
    · rw [hes, hel, List.append_assoc]
    · rwa [List.append_assoc, tokenElements_cons, same_token ht] at hsame
  · refine Or.inr (Or.inr ⟨hok, hlast, k, us, ?_, hus⟩)
    rw [renderTokens_cons, List.drop_length_add_append, hdrop]

/-- **切れ目でない所で buffer が終われば、そこまでで壊れる。** -/
theorem pdpLoop_broken (hcb : ∀ a e b, (cb a e b).1 = 0) (ts : List PostToken) :
    ∀ {e : PostEt} {n : Nat} {s : PdpState σ} {fuel : Nat}, s.lastItemType = e → Tokens line e ts →
    0 < n → n < (renderTokens line ts).length → (∀ us, ¬Cut line ts n us) → s.i ≤ buf.length →
    buf.drop s.i = (renderTokens line ts).take n → buf.length - s.i ≤ fuel →
    ∃ t, pdpLoop (fun _ => 0) buf cb (delimiter line) fuel s = some t ∧
      Broken line e ts n s.events t := by
  induction ts with
  | nil =>
    intro e n s fuel _ _ hpos hlt
    exact absurd hlt (Nat.not_lt_zero n)
  | cons x ts ih =>
    intro e n s fuel hlast ht hpos hlt hcut hi hrest hfuel
    have hlen := congrArg List.length hrest
    rw [List.length_drop, List.length_take, Nat.min_eq_left hlt.le] at hlen
    have hi' : s.i < buf.length := by omega
    rw [renderTokens_cons, List.length_append] at hlt
    by_cases hshort : n < (x.render line).length
    · -- token の途中で切れた
      rw [renderTokens_cons, List.take_append_of_le_length hshort.le] at hrest
      have hr : buf.drop s.i <+: x.render line := hrest ▸ List.take_prefix n _
      have hne : buf.drop s.i ≠ x.render line := fun h => by
        have := congrArg List.length h
        rw [List.length_drop] at this
        omega
      have hvalue : ∀ v k, x = .value v k → v.length < (buf.drop s.i).length := by
        rintro v k rfl
        rw [List.length_drop, hlen]
        by_contra hle
        have hv : v.take n ≠ [] := fun h => by
          have := congrArg List.length h
          rw [List.length_take, List.length_nil] at this
          omega
        have h : Cut line (.value (v.take n ++ v.drop n) k :: ts) (v.take n).length
            (.value (v.drop n) k :: ts) := .value hv
        rw [List.take_append_drop, List.length_take, Nat.min_eq_left (by omega)] at h
        exact hcut _ h
      rcases pdpTurn_short hcb hi (hlast.symm ▸ ht) hr hne hvalue with ⟨s', hturn⟩ |
        ⟨s', v, k, w, rfl, -, hw, hturn, hel⟩ | ⟨s', v, k, rfl, hv, hturn, hlast', hover⟩
      · exact ⟨_, pdpLoop_stop hi' hfuel hturn (fun h => nomatch h), Or.inl rfl⟩
      · exact ⟨_, pdpLoop_stop hi' hfuel hturn (fun h => nomatch h),
          Or.inr (Or.inl ⟨rfl, _, hel, not_same_value ht hw⟩)⟩
      · obtain ⟨m, -, hloop⟩ := pdpLoop_next hi' hfuel hturn (by omega)
        refine ⟨_, hloop.trans (pdpLoop_end _ m hover.le), Or.inr (Or.inr ⟨rfl, hlast', k, ts, ?_, ht.tail⟩)⟩
        have hn : n = (v ++ delimiter line).length := by
          rw [← hv, List.length_drop, hlen]
        rw [renderTokens_cons, PostToken.render, ← List.append_assoc, List.append_assoc, hn, List.drop_left]
        rfl
    · obtain ⟨m, rfl⟩ : ∃ m, n = (x.render line).length + m := ⟨n - (x.render line).length, by omega⟩
      rw [renderTokens_cons, List.take_length_add_append] at hrest
      have hts := ht.tail
      by_cases htype : (∃ v, x = .contentType v) ∧ m < 2
      · -- 型の終わりが見えない
        obtain ⟨⟨v, rfl⟩, hm⟩ := htype
        have he : e = .filename := by
          cases ht
          rfl
        subst he
        have hone : (renderTokens line ts).take m <+: [13] := by
          cases hts with
          | @emptyType us h =>
            exact List.take_prefix_take_left (l := renderTokens line (.emptyLine :: us))
              (show m ≤ 1 by omega)
        obtain ⟨s', hturn⟩ := pdpTurn_type_short hlast ht (by
          rw [hrest, PostToken.render, List.append_assoc, List.prefix_append_right_inj,
            List.prefix_append_right_inj]
          exact hone) (delimiter line) cb
        exact ⟨_, pdpLoop_stop hi' hfuel hturn (fun h => nomatch h), Or.inl rfl⟩
      · have hm : 0 < m := by
          by_contra hzero
          obtain rfl : m = 0 := by omega
          exact hcut _ (.next (.here ts) fun _ v hv => htype ⟨⟨v, hv⟩, by decide⟩)
        have hx : x ≠ .finish := by
          rintro rfl
          cases ht
          rw [renderTokens_nil, List.length_nil] at hlt
          omega
        obtain ⟨s', hturn, htook⟩ := pdpTurn_token hcb hi (fun _ => 0) (hlast.symm ▸ ht) hx hrest
          (fun v hv => by
            subst hv
            cases hts with
            | emptyType h =>
              refine List.prefix_take_iff.mpr ⟨⟨_, rfl⟩, ?_⟩
              have hcrlf : crlf.length = 2 := rfl
              by_contra hlt'
              exact htype ⟨⟨v, rfl⟩, by omega⟩)
        obtain ⟨m', hfuel', hloop⟩ := pdpLoop_next hi' hfuel hturn (by
          have := List.length_pos_iff.mpr (x.render_ne_nil line)
          rw [htook.i]
          omega)
        obtain ⟨t, hloop', hbroken⟩ := ih htook.last hts hm (by omega)
          (fun us h => hcut us (.next h fun hzero => absurd hzero hm.ne'))
          (by rw [htook.i]; omega) (by rw [htook.i]; exact drop_add_of_drop hrest) hfuel'
        refine ⟨t, hloop.trans hloop', hbroken.cons ht ?_⟩
        rw [htook.elements, hlast]

end

end Esq
