import Esq.PostData.Parser

/-!
# form の構造

POST の本体を、callback に渡す要素に分けて並べたもの（`PostToken`）。どの token がどの要素の次に来られるかは
`Tokens` が言う。値の終わりは、区切りの行の初めが現れる所である。
-/

namespace Esq

open Infra

structure PostElement where
  etype : PostEt
  bytes : List UInt8

def PdpEvent.element? : PdpEvent → Option PostElement
  | .call etype _ _ bytes => some ⟨etype, bytes⟩
  | .read _ _ => none

def elements (events : List PdpEvent) : List PostElement := events.filterMap PdpEvent.element?

/-- 本体の部分。`value` は、続く区切りの行を含む。その行の終わりの byte `last` は見ない。 -/
inductive PostToken where
  | formData
  | name (s : List UInt8)
  | filename (s : List UInt8)
  | contentType (s : List UInt8)
  | emptyLine
  | value (s : List UInt8) (last : UInt8)
  | finish

/-- 値の終わりで探す列。区切りの行の最後の byte を含まない。 -/
def delimiter (line : List UInt8) : List UInt8 := crlf ++ line.dropLast

section

variable (line : List UInt8)

def PostToken.render : PostToken → List UInt8
  | formData => contentDfd
  | name s => nameS ++ (s ++ [34])
  | filename s => fnameS ++ (s ++ [34])
  | contentType s => contentTypePrefix ++ s
  | emptyLine => Esq.emptyLine
  | value s last => s ++ (delimiter line ++ [last])
  | finish => finishMark

def PostToken.elements : PostToken → List PostElement
  | formData => [⟨.contentFormData, contentDfd⟩]
  | name s => [⟨.name, s⟩]
  | filename s => [⟨.filename, s⟩]
  | contentType s => [⟨.contentType, s⟩]
  | emptyLine => [⟨.emptyLine, Esq.emptyLine⟩]
  | value s last => [⟨.value, s⟩, ⟨.boundary, delimiter line ++ [last]⟩]
  | finish => [⟨.finish, finishMark⟩]

def PostToken.after : PostToken → PostEt
  | formData => .contentFormData
  | name _ => .name
  | filename _ => .filename
  | contentType _ => .contentType
  | emptyLine => .emptyLine
  | value _ _ => .boundary
  | finish => .finish

def renderTokens (ts : List PostToken) : List UInt8 := ts.flatMap (PostToken.render line)

def tokenElements (ts : List PostToken) : List PostElement := ts.flatMap (PostToken.elements line)

structure BoundaryLine : Prop where
  lower : 4 ≤ line.length
  upper : line.length ≤ 254
  /-- 初めの改行の前までである -/
  crlf : findInfix crlf (line ++ crlf) = some line.length

/-- 値 `v` の後ろの区切りが、`v` の終わりで初めて見つかる。 -/
def Delimited (v : List UInt8) : Prop := findInfix (delimiter line) (v ++ delimiter line) = some v.length

/-- 種類の次の、終わりまでの token の列。`rest` は、値の途中から読む場合である。 -/
inductive Tokens : PostEt → List PostToken → Prop where
  | nil : Tokens .finish []
  | finish : Tokens .boundary [.finish]
  | formData {ts : List PostToken} (h : Tokens .contentFormData ts) : Tokens .boundary (.formData :: ts)
  | name {s : List UInt8} {ts : List PostToken} (hs : 34 ∉ s) (h : Tokens .name ts) :
      Tokens .contentFormData (.name s :: ts)
  | filename {s : List UInt8} {ts : List PostToken} (hs : 34 ∉ s) (h : Tokens .filename ts) :
      Tokens .name (.filename s :: ts)
  | contentType {s : List UInt8} {ts : List PostToken} (hne : s ≠ [])
      (hs : findInfix crlf ((s ++ crlf).drop 1) = some (s.length - 1)) (h : Tokens .contentType ts) :
      Tokens .filename (.contentType s :: ts)
  | emptyName {ts : List PostToken} (h : Tokens .emptyLine ts) : Tokens .name (.emptyLine :: ts)
  | emptyType {ts : List PostToken} (h : Tokens .emptyLine ts) : Tokens .contentType (.emptyLine :: ts)
  | value {s : List UInt8} {last : UInt8} {ts : List PostToken} (hs : Delimited line s)
      (h : Tokens .boundary ts) : Tokens .emptyLine (.value s last :: ts)
  | rest {s : List UInt8} {last : UInt8} {ts : List PostToken} (hs : Delimited line s)
      (h : Tokens .boundary ts) : Tokens .value (.value s last :: ts)

end

section

variable {line s t v w : List UInt8} {ts : List PostToken} {e : PostEt}

@[simp] theorem elements_append (es fs : List PdpEvent) : elements (es ++ fs) = elements es ++ elements fs :=
  List.filterMap_append

@[simp] theorem renderTokens_nil : renderTokens line [] = [] := rfl

@[simp] theorem renderTokens_cons (x : PostToken) (ts : List PostToken) :
    renderTokens line (x :: ts) = x.render line ++ renderTokens line ts := rfl

@[simp] theorem tokenElements_nil : tokenElements line [] = [] := rfl

@[simp] theorem tokenElements_cons (x : PostToken) (ts : List PostToken) :
    tokenElements line (x :: ts) = x.elements line ++ tokenElements line ts := rfl

theorem delimiter_ne_nil (line : List UInt8) : delimiter line ≠ [] := List.cons_ne_nil 13 _

theorem delimiter_append (hline : line ≠ []) : delimiter line ++ [line.getLast?.getD 0] = crlf ++ line := by
  unfold delimiter
  rw [List.getLast?_eq_some_getLast hline, List.append_assoc,
    Option.getD_some, List.dropLast_append_getLast]

theorem BoundaryLine.ne_nil (h : BoundaryLine line) : line ≠ [] := by
  rintro rfl
  exact absurd h.lower (by decide)

theorem Delimited.find (h : Delimited line v) (t : List UInt8) :
    memmem (v ++ (delimiter line ++ t)) (delimiter line) = some v.length := by
  rw [← List.append_assoc]
  exact findInfix_append h _

theorem Delimited.find_none (h : Delimited line v) (ht : t <+: delimiter line)
    (hne : t ≠ delimiter line) : memmem (v ++ t) (delimiter line) = none :=
  findInfix_eq_none_of_prefix (delimiter_ne_nil line) h ht hne

theorem Delimited.drop (h : Delimited line (v ++ w)) : Delimited line w := by
  unfold Delimited at h
  rw [List.append_assoc, List.length_append] at h
  exact findInfix_of_append h

theorem Delimited.find_part (h : Delimited line (v ++ w)) : memmem v (delimiter line) = none := by
  refine (findInfix_eq_none_iff (delimiter_ne_nil line)).mpr fun j hj => ?_
  obtain ⟨-, -, hfirst⟩ := findInfix_eq_some_iff.mp h
  have hlt : j < v.length := by
    have hpos : 0 < (delimiter line).length := List.length_pos_iff.mpr (delimiter_ne_nil line)
    have hle := hj.length_le
    rw [List.length_drop] at hle
    omega
  refine hfirst j (by rw [List.length_append]; omega) (hj.trans ?_)
  rw [List.append_assoc, List.drop_append_of_le_length hlt.le]
  exact List.prefix_append _ _

theorem Tokens.tail {x : PostToken} (h : Tokens line e (x :: ts)) : Tokens line x.after ts := by
  cases h with
  | finish => exact .nil
  | _ => assumption

theorem PostToken.render_ne_nil (x : PostToken) (line : List UInt8) : x.render line ≠ [] := by
  cases x with
  | value s last => exact fun h => absurd (List.append_eq_nil_iff.mp h).2 (List.cons_ne_nil 13 _)
  | _ => exact List.cons_ne_nil _ _

end

end Esq
