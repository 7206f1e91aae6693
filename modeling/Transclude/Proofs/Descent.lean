/-
Dotted identifiers, looked up part by part.

Where no key has a dot in it, `a.b` names what `b` names in what `a` names, so a path leads to the
same value whether it is written in full or relative to an item of a list.  The exception are
identifiers without a dot in an array.  By itself such an identifier is a key, and an array has
none; as a part of a dotted one it is an index.

* `plainKeys` — no key of an object anywhere in a value has a dot;
* `LoneIndex` — an identifier without a dot, in an array;
* `lookup?_eq_walk?` — any other identifier is walked segment by segment;
* `lookup?_dotted` — looking up `a.b` is looking up `a` and then `b`, a lone index apart.
-/
import Transclude.Value.Lookup

namespace Transclude.Value

/-! ### Keys without dots -/

mutual

/-- Whether no key of an object in a value has a dot. -/
def plainKeys : Value → Bool
  | array xs => plainItems xs
  | object ms => plainMembers ms
  | _ => true

/-- Whether no key in some items has a dot. -/
def plainItems : List Value → Bool
  | [] => true
  | x :: xs => plainKeys x && plainItems xs

/-- Whether no key of some members, or in their values, has a dot. -/
def plainMembers : List (String × Value) → Bool
  | [] => true
  | (k, v) :: ms => !k.toList.contains '.' && plainKeys v && plainMembers ms

end

variable {v w : Value} {ident segment : List Char} {key : String}

theorem plainKeys_of_mem {xs : List Value} (h : plainItems xs = true) (hv : v ∈ xs) :
    v.plainKeys = true := by
  induction xs with
  | nil => cases hv
  | cons x xs ih =>
    rw [plainItems, Bool.and_eq_true] at h
    rcases List.mem_cons.mp hv with rfl | hv
    · exact h.1
    · exact ih h.2 hv

theorem plainKeys_of_member? {ms : List (String × Value)} (h : plainMembers ms = true)
    (hv : member? key ms = some v) : '.' ∉ key.toList ∧ v.plainKeys = true := by
  induction ms with
  | nil => cases hv
  | cons m ms ih =>
    obtain ⟨k, w⟩ := m
    rw [plainMembers, Bool.and_eq_true, Bool.and_eq_true] at h
    by_cases hk : k = key
    · rw [member?, List.find?_cons_of_pos (by simpa using hk)] at hv
      obtain rfl := Option.some.inj hv
      subst hk
      exact ⟨by simpa using h.1.1, h.1.2⟩
    · rw [member?, List.find?_cons_of_neg (by simpa using hk)] at hv
      exact ih h.2 hv

theorem plainKeys_of_step? (h : v.plainKeys = true) (hw : v.step? segment = some w) :
    w.plainKeys = true := by
  cases v with
  | object ms => exact (plainKeys_of_member? h hw).2
  | array xs =>
    obtain ⟨i, -, hi⟩ := Option.bind_eq_some_iff.mp hw
    exact plainKeys_of_mem h (List.mem_of_getElem? hi)
  | _ => cases hw

theorem plainKeys_of_walk? {segments : List (List Char)} (h : v.plainKeys = true)
    (hw : v.walk? segments = some w) : w.plainKeys = true := by
  induction segments generalizing v with
  | nil => exact Option.some.inj hw ▸ h
  | cons s ss ih =>
    obtain ⟨u, hu, hw⟩ := Option.bind_eq_some_iff.mp hw
    exact ih (plainKeys_of_step? h hu) hw

theorem keyed?_of_dot (h : v.plainKeys = true) (hdot : '.' ∈ ident) :
    v.keyed? (String.ofList ident) = none := by
  refine Option.eq_none_iff_forall_ne_some.mpr fun w hw => ?_
  cases v with
  | object ms =>
    have hplain := (plainKeys_of_member? h hw).1
    rw [String.toList_ofList] at hplain
    exact hplain hdot
  | _ => cases hw

/-! ### Identifiers as paths -/

/-- Whether an identifier without a dot is looked up in an array. -/
def LoneIndex (v : Value) (ident : List Char) : Prop := '.' ∉ ident ∧ v.kind = .array

/-- An identifier without a dot is a path of one segment. -/
theorem walk?_of_not_mem (h : '.' ∉ ident) (v : Value) :
    v.walk? (Text.split '.' ident) = v.step? ident := by
  rw [Text.split_of_not_mem h, walk?]
  cases v.step? ident <;> rfl

theorem lookup?_of_loneIndex (hne : ident ≠ []) (h : LoneIndex v ident) :
    v.lookup? ident = none := by
  obtain ⟨hdot, hkind⟩ := h
  cases v with
  | array xs =>
    have hkey : (array xs).keyed? (String.ofList ident) = none := rfl
    rw [lookup?, if_neg hne, hkey, if_neg hdot]
  | _ => cases hkind

theorem lookup?_of_dot (h : v.plainKeys = true) (hdot : '.' ∈ ident) :
    v.lookup? ident = v.walk? (Text.split '.' ident) := by
  have hne : ident ≠ [] := List.ne_nil_of_mem hdot
  rw [lookup?, if_neg hne, keyed?_of_dot h hdot, if_pos hdot]

/-- An identifier is walked segment by segment, unless it is a lone index. -/
theorem lookup?_eq_walk? (h : v.plainKeys = true) (hne : ident ≠ []) (hlone : ¬LoneIndex v ident) :
    v.lookup? ident = v.walk? (Text.split '.' ident) := by
  by_cases hdot : '.' ∈ ident
  · exact lookup?_of_dot h hdot
  · rw [walk?_of_not_mem hdot, lookup?, if_neg hne, if_neg hdot]
    cases v with
    | array xs => exact absurd ⟨hdot, rfl⟩ hlone
    | object ms =>
      rw [keyed?, step?]
      cases member? (String.ofList ident) ms <;> rfl
    | _ => rfl

/-- The segments of `a.b` are those of `a`, and then those of `b`. -/
theorem lookup?_append_dot (h : v.plainKeys = true) (a b : List Char) :
    v.lookup? (a ++ '.' :: b) =
      (v.walk? (Text.split '.' a)).bind (walk? · (Text.split '.' b)) := by
  rw [lookup?_of_dot h (by simp), Text.split_append, walk?_append]

/-- **Looking up `a.b` is looking up `a` and then `b` in the value found**, if no key has a dot.  An
identifier without a dot names nothing in an array by itself: if `a` is one, in a context that is an
array, or `b` in an array that `a` names, it is an index in `a.b` nevertheless. -/
theorem lookup?_dotted (context : Value) (a b : List Char) (h : context.plainKeys = true)
    (ha : a ≠ []) (hb : b ≠ []) :
    (¬LoneIndex context a → (∀ v, context.lookup? a = some v → ¬LoneIndex v b) →
      context.lookup? (a ++ '.' :: b) = (context.lookup? a).bind (lookup? · b)) ∧
    (LoneIndex context a → context.lookup? a = none ∧
      context.lookup? (a ++ '.' :: b) = (context.step? a).bind (walk? · (Text.split '.' b))) ∧
    (∀ v, context.lookup? a = some v → LoneIndex v b → v.lookup? b = none ∧
      context.lookup? (a ++ '.' :: b) = v.step? b) := by
  rw [lookup?_append_dot h]
  refine ⟨fun hcontext hvalue => ?_, fun hlone => ?_, fun v hv hlone => ?_⟩
  · have hwalk := lookup?_eq_walk? h ha hcontext
    rw [← hwalk]
    cases hv : context.lookup? a with
    | none => rfl
    | some v =>
      have hplain := plainKeys_of_walk? h (hwalk.symm.trans hv)
      exact (lookup?_eq_walk? hplain hb (hvalue v hv)).symm
  · exact ⟨lookup?_of_loneIndex ha hlone, by rw [walk?_of_not_mem hlone.1]⟩
  · have hcontext : ¬LoneIndex context a := by
      intro hcontext
      rw [lookup?_of_loneIndex ha hcontext] at hv
      cases hv
    rw [← lookup?_eq_walk? h ha hcontext, hv]
    exact ⟨lookup?_of_loneIndex hb hlone, walk?_of_not_mem hlone.1 v⟩

/-- An item of a list that is an object, and one that is a list itself. -/
theorem lookup?_dotted_of_rows :
    let context : Value := .object
      [("rows", .array [.object [("x", .string "p")], .array [.string "q", .string "r"]])]
    context.plainKeys = true ∧ "rows.0".toList ≠ [] ∧ "x".toList ≠ [] ∧
    context.lookup? "rows.0.x".toList = (context.lookup? "rows.0".toList).bind (lookup? · ['x']) ∧
    "rows.1".toList ≠ [] ∧ "1".toList ≠ [] ∧
    context.lookup? "rows.1.1".toList =
      (Value.array [.string "q", .string "r"]).step? ['1'] := by
  intro context
  have hplain : context.plainKeys = true := by decide
  have hitem : context.lookup? "rows.0".toList = some (.object [("x", .string "p")]) := rfl
  have hlist : context.lookup? "rows.1".toList = some (.array [.string "q", .string "r"]) := rfl
  refine ⟨hplain, by decide, by decide, ?_, by decide, by decide, ?_⟩
  · refine (lookup?_dotted context "rows.0".toList ['x'] hplain (by decide) (by decide)).1
      (fun hlone => absurd hlone.2 (by decide)) fun v hv hlone => ?_
    rw [hitem] at hv
    obtain rfl := Option.some.inj hv
    exact absurd hlone.2 (by decide)
  · exact ((lookup?_dotted context "rows.1".toList ['1'] hplain (by decide) (by decide)).2.2 _
      hlist ⟨by decide, rfl⟩).2

/-- The first item of a list is named in full, but nothing is named by its index in the list. -/
theorem lookup?_differs_of_index :
    ¬∀ (context : Value) (a b : List Char), context.plainKeys = true → a ≠ [] → b ≠ [] →
      context.lookup? (a ++ '.' :: b) = (context.lookup? a).bind (lookup? · b) := by
  intro h
  have hindex := h (.object [("l", .array [.string "p"])]) ['l'] ['0'] (by decide) (by decide)
    (by decide)
  have hfull : (Value.object [("l", .array [.string "p"])]).lookup? ['l', '.', '0'] =
      some (.string "p") := rfl
  have hparts : ((Value.object [("l", .array [.string "p"])]).lookup? ['l']).bind
      (lookup? · ['0']) = none := rfl
  rw [List.singleton_append, hfull, hparts] at hindex
  cases hindex

end Transclude.Value
