import Mathlib.Data.Rat.Floor
import Tram.Lib.PyInt

/-! # Records and dotted paths

A record is a JSON object. Numbers are exact; an integer and a float of the same value stay
apart, since they print differently. A dotted path is the list of its tokens. -/

namespace Tram

open List

inductive Json where
  | null
  | bool (b : Bool)
  | int (n : Int)
  | float (q : ℚ)
  | str (s : String)
  | arr (items : List Json)
  | obj (fields : List (String × Json))
  deriving Inhabited

abbrev Record := List (String × Json)

/-- The value of a number; `bool`, a subclass of `int` in Python, is none. -/
def Json.num? : Json → Option ℚ
  | .int n => some n
  | .float q => some q
  | _ => none

def Json.isNull : Json → Bool
  | .null => true
  | _ => false

/-- Whether Python takes the value for false. -/
def Json.falsy : Json → Bool
  | .null | .bool false | .str "" | .arr [] | .obj [] => true
  | .int n => n = 0
  | .float q => q = 0
  | _ => false

/-- `int(value)` of a value that is neither `None` nor a `bool`; `none` where it raises. -/
def Json.toInt? : Json → Option Int
  | .int n => some n
  | .float q => some (if 0 ≤ q then ⌊q⌋ else ⌈q⌉)
  | .str s => PyInt.parse s
  | _ => none

/-! ## Paths -/

abbrev Path := List String

namespace Path

def text (p : Path) : String := ".".intercalate p

/-- The path whose text goes on with `tail`. -/
def extend (tail : String) : Path → Path
  | [] => [tail]
  | [token] => [token ++ tail]
  | token :: tokens => token :: extend tail tokens

def Apart (p q : Path) : Prop := ¬ p <+: q ∧ ¬ q <+: p

instance (p q : Path) : Decidable (Apart p q) := inferInstanceAs (Decidable (_ ∧ _))

theorem apart_cons {token : String} {p q : Path} :
    Apart (token :: p) (token :: q) ↔ Apart p q := by
  simp [Apart, cons_prefix_cons]

theorem apart_of_ne {token token' : String} (h : token ≠ token') (p q : Path) :
    Apart (token :: p) (token' :: q) := by
  simp [Apart, cons_prefix_cons, h, h.symm]

theorem extend_ne_nil (tail : String) (p : Path) : p.extend tail ≠ [] := by
  fun_cases extend tail p <;> simp

theorem extend_empty : ∀ p : Path, p ≠ [] → p.extend "" = p
  | [], hp => absurd rfl hp
  | [token], _ => by rw [extend, String.append_empty]
  | token :: t :: ts, _ => congrArg (token :: ·) (extend_empty (t :: ts) (cons_ne_nil t ts))

theorem extend_apart {a b : String} (h : a ≠ b) :
    ∀ p : Path, p ≠ [] → Apart (p.extend a) (p.extend b)
  | [], hp => absurd rfl hp
  | [token], _ => by simp [extend, Apart, cons_prefix_cons, h, h.symm]
  | token :: t :: ts, _ => apart_cons.mpr (extend_apart h (t :: ts) (cons_ne_nil t ts))

end Path

namespace Record

/-- `get_path`: `none` where it is not found. -/
def getPath : Record → List String → Option Json
  | _, [] => none
  | r, [token] => r.lookup token
  | r, token :: tokens =>
    match r.lookup token with
    | some (.obj fields) => getPath fields tokens
    | _ => none

/-- `value if found else None` -/
def getPathD (r : Record) (path : List String) : Json := (r.getPath path).getD .null

/-- `record[key] = value` -/
def put (key : String) (value : Json) : Record → Record
  | [] => [(key, value)]
  | (k, v) :: rest => if k = key then (key, value) :: rest else (k, v) :: put key value rest

/-- `del record[key]` -/
def remove (key : String) (r : Record) : Record := r.filter fun field => field.1 ≠ key

/-- The loop of `set_path`, which creates what is missing; the token it stops at where it raises. -/
def putAt : Record → Path → Json → Except String Record
  | r, [], _ => .ok r
  | r, [token], value => .ok (r.put token value)
  | r, token :: tokens, value =>
    match r.lookup token with
    | none => (putAt [] tokens value).map fun fields => r.put token (.obj fields)
    | some (.obj fields) => (putAt fields tokens value).map fun fields => r.put token (.obj fields)
    | some _ => .error token

/-- `set_path`, with the message of the `TransformError` it raises. -/
def setPath (r : Record) (path : Path) (value : Json) : Except String Record :=
  (r.putAt path value).mapError fun token =>
    "path '" ++ path.text ++ "' traverses non-dict intermediate '" ++ token ++ "'"

def deletePath : Record → Path → Record
  | r, [] => r
  | r, [token] => r.remove token
  | r, token :: tokens =>
    match r.lookup token with
    | some (.obj fields) => r.put token (.obj (deletePath fields tokens))
    | _ => r

/-! ## Reading what was written -/

variable {r r' : Record} {p : Path} {token : String} {value found : Json}

theorem lookup_cons_ite (name k : String) (v : Json) (rest : Record) :
    List.lookup k ((name, v) :: rest) = if k = name then some v else rest.lookup k := by
  rw [lookup_cons]
  by_cases h : k = name
  · simp [h]
  · rw [beq_false_of_ne h, if_neg h]

theorem lookup_put (r : Record) (key k : String) (value : Json) :
    (r.put key value).lookup k = if k = key then some value else r.lookup k := by
  induction r with
  | nil => exact lookup_cons_ite key k value []
  | cons field rest ih =>
    obtain ⟨name, v⟩ := field
    by_cases hname : name = key
    · subst hname
      simp only [put, if_true, lookup_cons_ite]
      split_ifs <;> rfl
    · simp only [put, if_neg hname, lookup_cons_ite, ih]
      split_ifs with hk hkey
      · exact absurd (hk.symm.trans hkey) hname
      all_goals rfl

theorem lookup_remove (r : Record) (key k : String) :
    (r.remove key).lookup k = if k = key then none else r.lookup k := by
  induction r with
  | nil => exact (ite_self none).symm
  | cons field rest ih =>
    obtain ⟨name, v⟩ := field
    unfold remove at ih ⊢
    by_cases hname : name = key
    · subst hname
      simp only [filter_cons, ne_eq, not_true, decide_false, Bool.false_eq_true, if_false, ih,
        lookup_cons_ite]
      split_ifs <;> rfl
    · simp only [filter_cons, ne_eq, hname, not_false_iff, decide_true, if_true, ih,
        lookup_cons_ite]
      split_ifs with hk hkey
      · exact absurd (hk.symm.trans hkey) hname
      all_goals rfl

/-- The dictionary under `token` that a path through it enters. -/
def child (r : Record) (token : String) : Record :=
  match r.lookup token with
  | some (.obj fields) => fields
  | _ => []

theorem getPath_nil : ∀ p : Path, getPath [] p = none
  | [] | [_] | _ :: _ :: _ => rfl

theorem getPath_cons (r : Record) (token t : String) (ts : Path) :
    r.getPath (token :: t :: ts) = (r.child token).getPath (t :: ts) := by
  unfold child
  rw [getPath]
  · split
    · rfl
    · exact (getPath_nil (t :: ts)).symm
  · simp

theorem lookup_of_found (h : r.getPath (token :: p) = some found) : r.lookup token ≠ none := by
  intro hl
  cases p with
  | nil => cases hl.symm.trans h
  | cons t ts =>
    rw [getPath_cons, child, hl] at h
    cases (getPath_nil (t :: ts)).symm.trans h

theorem child_put (r : Record) (token : String) (fields : Record) :
    (r.put token (.obj fields)).child token = fields := by
  unfold child
  rw [lookup_put, if_pos rfl]

/-- `r'` is `r` but for what lies at, under or over the path. -/
inductive Edits : Path → Record → Record → Prop where
  | leaf {token : String} {r r' : Record} (hother : ∀ k ≠ token, r'.lookup k = r.lookup k) :
      Edits [token] r r'
  | node {token t : String} {ts : Path} {r r' : Record}
      (hother : ∀ k ≠ token, r'.lookup k = r.lookup k)
      (hchild : Edits (t :: ts) (r.child token) (r'.child token)) : Edits (token :: t :: ts) r r'

theorem Edits.lookup (h : Edits (token :: p) r r') {k : String} (hk : k ≠ token) :
    r'.lookup k = r.lookup k := by
  cases h with
  | leaf hother => exact hother k hk
  | node hother _ => exact hother k hk

theorem Edits.refl (r : Record) (hp : p ≠ []) : Edits p r r := by
  induction p generalizing r with
  | nil => exact absurd rfl hp
  | cons token p ih =>
    cases p with
    | nil => exact .leaf fun _ _ => rfl
    | cons t ts => exact .node (fun _ _ => rfl) (ih (r.child token) (cons_ne_nil t ts))

theorem Edits.getPath {q : Path} (h : Edits p r r') (hpq : Path.Apart p q) :
    r'.getPath q = r.getPath q := by
  induction p generalizing r r' q with
  | nil => cases h
  | cons token p ih =>
    cases q with
    | nil => rfl
    | cons token' q =>
      by_cases htoken : token' = token
      · -- the paths part below the token, so both go through its dictionary
        subst htoken
        have htail := Path.apart_cons.mp hpq
        cases h with
        | leaf _ => exact absurd nil_prefix htail.1
        | node _ hchild =>
          cases q with
          | nil => exact absurd nil_prefix htail.2
          | cons t' ts' =>
            rw [getPath_cons, getPath_cons]
            exact ih hchild htail
      · have hl := h.lookup htoken
        cases q with
        | nil => exact hl
        | cons t' ts' => rw [getPath_cons, getPath_cons, child, child, hl]

theorem putAt_cons (r : Record) (token t : String) (ts : Path) (value : Json) :
    r.putAt (token :: t :: ts) value =
      match r.lookup token with
      | none => (putAt [] (t :: ts) value).map fun fields => r.put token (.obj fields)
      | some (.obj fields) =>
        (putAt fields (t :: ts) value).map fun fields => r.put token (.obj fields)
      | some _ => .error token := rfl

theorem putAt_child {t : String} {ts : Path} (h : r.putAt (token :: t :: ts) value = .ok r') :
    ∃ fields, (r.child token).putAt (t :: ts) value = .ok fields ∧
      r' = r.put token (.obj fields) := by
  -- a missing key and a dictionary are entered alike; anything else raises
  have henter : ((r.child token).putAt (t :: ts) value).map
      (fun fields => r.put token (.obj fields)) = .ok r' := by
    rw [putAt_cons] at h
    unfold child
    split at h
    · next hl => rw [hl]; exact h
    · next hl => rw [hl]; exact h
    · cases h
  cases hp : (r.child token).putAt (t :: ts) value with
  | error e => simp [hp, Except.map] at henter
  | ok fields =>
    rw [hp] at henter
    exact ⟨fields, rfl, (Except.ok.inj henter).symm⟩

theorem edits_putAt (hp : p ≠ []) (h : r.putAt p value = .ok r') : Edits p r r' := by
  induction p generalizing r r' with
  | nil => exact absurd rfl hp
  | cons token p ih =>
    cases p with
    | nil =>
      cases h
      exact .leaf fun k hk => (lookup_put r token k value).trans (if_neg hk)
    | cons t ts =>
      obtain ⟨fields, hin, rfl⟩ := putAt_child h
      refine .node (fun k hk => (lookup_put r token k _).trans (if_neg hk)) ?_
      rw [child_put]
      exact ih (cons_ne_nil t ts) hin

theorem getPath_putAt (hp : p ≠ []) (h : r.putAt p value = .ok r') : r'.getPath p = some value := by
  induction p generalizing r r' with
  | nil => exact absurd rfl hp
  | cons token p ih =>
    cases p with
    | nil =>
      cases h
      exact (lookup_put r token token value).trans (if_pos rfl)
    | cons t ts =>
      obtain ⟨fields, hin, rfl⟩ := putAt_child h
      rw [getPath_cons, child_put]
      exact ih (cons_ne_nil t ts) hin

theorem edits_deletePath (r : Record) (hp : p ≠ []) : Edits p r (r.deletePath p) := by
  induction p generalizing r with
  | nil => exact absurd rfl hp
  | cons token p ih =>
    cases p with
    | nil => exact .leaf fun k hk => (lookup_remove r token k).trans (if_neg hk)
    | cons t ts =>
      have hin := ih (r.child token) (cons_ne_nil t ts)
      change Edits (token :: t :: ts) r (match r.lookup token with
        | some (.obj fields) => r.put token (.obj (deletePath fields (t :: ts)))
        | _ => r)
      split
      · next fields hl =>
        refine .node (fun k hk => (lookup_put r token k _).trans (if_neg hk)) ?_
        have hfields : r.child token = fields := by rw [child, hl]
        rw [child_put, ← hfields]
        exact hin
      · exact .node (fun _ _ => rfl) (.refl _ (cons_ne_nil t ts))

/-- The continuations of a path that is found lie apart from a key that is not there. -/
theorem extend_apart_of_found {key tail : String} (h : r.getPath p = some found)
    (hkey : r.lookup key = none) (htail : tail = "" ∨ ∀ token : String, token ++ tail ≠ key) :
    Path.Apart (p.extend tail) [key] := by
  cases p with
  | nil => cases h
  | cons token p =>
    have hne : token ≠ key := fun heq => lookup_of_found h (heq ▸ hkey)
    cases p with
    | nil =>
      obtain rfl | hend := htail
      · rw [Path.extend, String.append_empty]
        exact Path.apart_of_ne hne [] []
      · exact Path.apart_of_ne (hend token) [] []
    | cons t ts => exact Path.apart_of_ne hne _ []

end Record
end Tram
