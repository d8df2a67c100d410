import Mathlib.Data.List.Count
import Mathlib.Data.List.Induction
import Mathlib.Data.List.Nodup

namespace Xylem.Encoding.Json

open List

/-- The bytes of the caller's buffers. -/
abbrev Memory := Nat → Nat → UInt8

/-- A key in an object: a copy, or the caller's pointer with the length that the text had in the call. -/
inductive Key
  | own (text : List UInt8)
  | borrowed (addr len : Nat)

variable (m : Memory)

def Key.read : Key → List UInt8
  | .own text => text
  | .borrowed addr len => (List.range len).map (m addr)

inductive Kind
  | arr
  | obj
  deriving DecidableEq

/-- A value of a document; the items of an array have no key. -/
inductive Val
  | null
  | bool (b : Bool)
  | uint (n : UInt64)
  | sint (n : Int64)
  | real (x : Float)
  | str (text : List UInt8)
  | list (kind : Kind) (items : List (Option Key × Val))

mutual

/-- The value with its keys as they read in a memory: what a print emits and what a deep copy stores. -/
def Val.read (m : Memory) : Val → Val
  | .list kind items => .list kind (readItems m items)
  | v => v

def readItems (m : Memory) : List (Option Key × Val) → List (Option Key × Val)
  | [] => []
  | (key, v) :: rest => (key.map fun k => .own (k.read m), v.read m) :: readItems m rest

end

/-- `_json_copy_val`. -/
def jsonCopyVal (child : Val) : Val := child.read m

variable (kind : Kind)

/-- `yyjson_mut_obj_add_*` and `yyjson_mut_arr_add_*` append without a look at what is there. -/
def Val.add (key : Option Key) (v : Val) : Val → Option Val
  | .list kind' items => if kind' = kind then some (.list kind' (items ++ [(key, v)])) else none
  | _ => none

section Calls

variable (m : Memory) (key : Key) (text : List UInt8)

def jsonSetStr : Val → Option Val := Val.add .obj key (.str text)
def jsonSetI32 (n : Int32) : Val → Option Val := Val.add .obj key (.sint n.toInt64)
def jsonSetI64 (n : Int64) : Val → Option Val := Val.add .obj key (.sint n)
def jsonSetF64 (x : Float) : Val → Option Val := Val.add .obj key (.real x)
def jsonSetBool (b : Bool) : Val → Option Val := Val.add .obj key (.bool b)
def jsonSetNull : Val → Option Val := Val.add .obj key .null
def jsonSetObj (child : Val) : Val → Option Val := Val.add .obj key (jsonCopyVal m child)
def jsonSetArr (child : Val) : Val → Option Val := Val.add .obj key (jsonCopyVal m child)
def jsonArrPush (item : Val) : Val → Option Val := Val.add .arr none (jsonCopyVal m item)
def jsonArrPushStr : Val → Option Val := Val.add .arr none (.str text)
def jsonArrPushI64 (n : Int64) : Val → Option Val := Val.add .arr none (.sint n)
def jsonArrPushF64 (x : Float) : Val → Option Val := Val.add .arr none (.real x)
def jsonArrPushBool (b : Bool) : Val → Option Val := Val.add .arr none (.bool b)

end Calls

/-- What a call of `xylem_json_set_*` sets. -/
inductive Setting
  | str (text : List UInt8)
  | i32 (n : Int32)
  | i64 (n : Int64)
  | f64 (x : Float)
  | bool (b : Bool)
  | null
  | obj (child : Val)
  | arr (child : Val)

def Setting.run (key : Key) : Setting → Val → Option Val
  | .str text => jsonSetStr key text
  | .i32 n => jsonSetI32 key n
  | .i64 n => jsonSetI64 key n
  | .f64 x => jsonSetF64 key x
  | .bool b => jsonSetBool key b
  | .null => jsonSetNull key
  | .obj child => jsonSetObj m key child
  | .arr child => jsonSetArr m key child

/-- The value that the call stores. -/
def Setting.val : Setting → Val
  | .str text => .str text
  | .i32 n => .sint n.toInt64
  | .i64 n => .sint n
  | .f64 x => .real x
  | .bool b => .bool b
  | .null => .null
  | .obj child | .arr child => child.read m

theorem Setting.run_eq (key : Key) (setting : Setting) : setting.run m key = Val.add .obj key (setting.val m) := by
  cases setting <;> rfl

section Getters

variable (m : Memory) (j : Val) (key : List UInt8)

/-- `_json_get_imut` and `_json_get_mut`: the first pair with the key. -/
def jsonGet : Option Val :=
  match j with
  | .list .obj items => (items.find? fun item => item.1.map (Key.read m) = some key).map Prod.snd
  | _ => none

def jsonI64 : Int64 :=
  match jsonGet m j key with
  | some (.sint n) => n
  | some (.uint n) => n.toInt64
  | _ => 0

end Getters

/-- A document with the values that the handles of its pool refer to. -/
structure Root where
  doc : Val
  children : List Val

/-- The root's own handle, or one of the pool. -/
inductive Handle
  | root
  | child (i : Nat)

def jsonMaxChildren : Nat := 64

namespace Root

variable (r : Root)

def val : Handle → Option Val
  | .root => some r.doc
  | .child i => r.children[i]?

/-- `_json_borrow_imut` and `_json_borrow_mut`. -/
def borrow (v : Option Val) : Root × Option Handle :=
  match v with
  | none => (r, none)
  | some v =>
    if r.children.length ≥ jsonMaxChildren then (r, none)
    else ({ r with children := r.children ++ [v] }, some (.child r.children.length))

theorem borrow_spec (v : Option Val) :
    (r.borrow v).1.children.length = r.children.length + (r.borrow v).2.toList.length ∧
      ((r.borrow v).2.isSome ↔ v.isSome ∧ r.children.length < jsonMaxChildren) ∧
      ∀ j, (r.borrow v).2 = some j → (r.borrow v).1.val j = v := by
  unfold borrow
  split
  · simp
  · split
    · rename_i full
      exact ⟨rfl, by simpa using full, by simp⟩
    · rename_i room
      refine ⟨by simp, by simpa using room, ?_⟩
      rintro _ ⟨⟩
      simp [val]

end Root

/-- `yyjson_is_obj`, `yyjson_is_arr`. -/
def Val.is : Val → Bool
  | .list kind' _ => kind' = kind
  | _ => false

/-- `xylem_json_obj` and `xylem_json_arr`. -/
def jsonField (r : Root) (j : Handle) (key : List UInt8) : Root × Option Handle :=
  r.borrow ((r.val j).bind fun v => (jsonGet m v key).filter (Val.is kind))

def jsonObj : Root → Handle → List UInt8 → Root × Option Handle := jsonField m .obj
def jsonArr : Root → Handle → List UInt8 → Root × Option Handle := jsonField m .arr

variable (calls : List (Key × Setting))

section Buffers

def Key.refs : Key → List (Nat × Nat)
  | .own _ => []
  | .borrowed addr len => [(addr, len)]

mutual

/-- The caller's pointers that a value holds as keys. -/
def Val.refs : Val → List (Nat × Nat)
  | .list _ items => itemsRefs items
  | _ => []

def itemsRefs : List (Option Key × Val) → List (Nat × Nat)
  | [] => []
  | (key, v) :: rest => key.elim [] Key.refs ++ v.refs ++ itemsRefs rest

end

/-- What `xylem_json_arr_push*` appends. -/
inductive Pushing
  | copy (item : Val)
  | str (text : List UInt8)
  | i64 (n : Int64)
  | f64 (x : Float)
  | bool (b : Bool)

def Pushing.run : Pushing → Val → Option Val
  | .copy item => jsonArrPush m item
  | .str text => jsonArrPushStr text
  | .i64 n => jsonArrPushI64 n
  | .f64 x => jsonArrPushF64 x
  | .bool b => jsonArrPushBool b

/-- A call on a document; `xylem_json_set_*` gets a pointer to its key. -/
inductive Call
  | set (addr len : Nat) (setting : Setting)
  | push (item : Pushing)

def Call.run (m : Memory) : Call → Val → Option Val
  | .set addr len setting => setting.run m (.borrowed addr len)
  | .push item => item.run m

def Call.keys : Call → List (Nat × Nat)
  | .set addr len _ => [(addr, len)]
  | .push _ => []

/-- A change of the value that a handle refers to, by its place in the document. -/
def Val.modify (f : Val → Option Val) : List Nat → Val → Option Val
  | [], v => f v
  | i :: path, .list kind items =>
    items[i]?.bind fun item => (item.2.modify f path).map fun v => .list kind (items.set i (item.1, v))
  | _ :: _, _ => none

/-- The value that a handle refers to. -/
def Val.at : List Nat → Val → Option Val
  | [], v => some v
  | i :: path, .list _ items => items[i]?.bind fun item => item.2.at path
  | _ :: _, _ => none

/-- A document after a sequence of calls on its handles, with the key pointers of the set calls that returned 0. -/
def jsonCalls (calls : List (List Nat × Call)) (kind : Kind) : Val × List (Nat × Nat) :=
  calls.foldl (fun doc call =>
    match doc.1.modify (call.2.run m) call.1 with
    | some v => (v, doc.2 ++ call.2.keys)
    | none => doc) (.list kind [], [])

variable {m m' : Memory} {ref : Nat × Nat}

theorem readItems_eq_map (items : List (Option Key × Val)) :
    readItems m items = items.map fun item => (item.1.map fun k => .own (k.read m), item.2.read m) := by
  induction items with
  | nil => rfl
  | cons item rest ih => rw [readItems, ih, map_cons]

theorem itemsRefs_append (items items' : List (Option Key × Val)) :
    itemsRefs (items ++ items') = itemsRefs items ++ itemsRefs items' := by
  induction items with
  | nil => rfl
  | cons item rest ih => simp only [cons_append, itemsRefs, ih, append_assoc]

mutual

theorem Val.refs_read (v : Val) : (v.read m).refs = [] := by
  cases v with
  | list kind items => rw [Val.read, Val.refs, itemsRefs_read]
  | _ => rfl

theorem itemsRefs_read (items : List (Option Key × Val)) : itemsRefs (readItems m items) = [] := by
  cases items with
  | nil => rfl
  | cons item rest =>
    rw [readItems, itemsRefs, item.2.refs_read, itemsRefs_read rest]
    cases item.1 <;> rfl

end

mutual

/-- A value reads the same in two memories exactly if the keys that it has borrowed do. -/
theorem Val.read_eq_iff (v : Val) : v.read m' = v.read m ↔
    ∀ ref ∈ v.refs, (Key.borrowed ref.1 ref.2).read m' = (Key.borrowed ref.1 ref.2).read m := by
  cases v with
  | list kind items => simp only [Val.read, Val.list.injEq, true_and, readItems_eq_iff, Val.refs]
  | _ => exact iff_of_true rfl (by simp [Val.refs])

theorem readItems_eq_iff (items : List (Option Key × Val)) : readItems m' items = readItems m items ↔
    ∀ ref ∈ itemsRefs items, (Key.borrowed ref.1 ref.2).read m' = (Key.borrowed ref.1 ref.2).read m := by
  cases items with
  | nil => exact iff_of_true rfl (by simp [itemsRefs])
  | cons item rest =>
    simp only [readItems, itemsRefs, List.cons.injEq, Prod.mk.injEq, item.2.read_eq_iff, readItems_eq_iff rest,
      forall_mem_append]
    rcases item with ⟨_ | _ | _, v⟩ <;> simp [Key.refs, Key.read]

end

section Refs

variable {extra : Prop} {v w w' : Val}

theorem itemsRefs_set {items : List (Option Key × Val)} {i : Nat} {item : Option Key × Val}
    (here : items[i]? = some item) (more : ref ∈ v.refs ↔ ref ∈ item.2.refs ∨ extra) :
    ref ∈ itemsRefs (items.set i (item.1, v)) ↔ ref ∈ itemsRefs items ∨ extra := by
  induction items generalizing i with
  | nil => cases here
  | cons first rest ih =>
    cases i with
    | zero =>
      cases here
      simp only [set_cons_zero, itemsRefs, mem_append, more, or_comm, or_left_comm]
    | succ i => simp only [set_cons_succ, itemsRefs, mem_append, ih here, or_assoc]

theorem Val.refs_modify {f : Val → Option Val} {path : List Nat} {v' : Val} (modified : v.modify f path = some v')
    (more : ∀ w w', f w = some w' → (ref ∈ w'.refs ↔ ref ∈ w.refs ∨ extra)) :
    ref ∈ v'.refs ↔ ref ∈ v.refs ∨ extra := by
  induction path generalizing v v' with
  | nil => exact more v v' modified
  | cons i path ih =>
    cases v with
    | list kind items =>
      obtain ⟨item, here, inner⟩ := Option.bind_eq_some_iff.mp modified
      obtain ⟨w, moved, rfl⟩ := Option.map_eq_some_iff.mp inner
      exact itemsRefs_set here (ih moved)
    | _ => cases modified

theorem Val.refs_add {kind : Kind} {key : Option Key} (none_ : v.refs = [])
    (added : Val.add kind key v w = some w') : ref ∈ w'.refs ↔ ref ∈ w.refs ∨ ref ∈ key.elim [] Key.refs := by
  cases w with
  | list kind' items =>
    obtain ⟨_, same⟩ := Option.ite_none_right_eq_some.mp added
    cases same
    simp [Val.refs, itemsRefs_append, itemsRefs, none_]
  | _ => cases added

theorem Call.refs_run {call : Call} (ran : call.run m w = some w') :
    ref ∈ w'.refs ↔ ref ∈ w.refs ∨ ref ∈ call.keys := by
  cases call with
  | set addr len setting =>
    rw [Call.run, Setting.run_eq] at ran
    exact Val.refs_add (by cases setting <;> first | rfl | exact Val.refs_read _) ran
  | push item => cases item <;> exact Val.refs_add (by first | rfl | exact Val.refs_read _) ran

/-- The pointers in a document are those of its set calls. -/
theorem mem_refs_jsonCalls (calls : List (List Nat × Call)) (kind : Kind) :
    ref ∈ (jsonCalls m calls kind).1.refs ↔ ref ∈ (jsonCalls m calls kind).2 := by
  induction calls using List.reverseRecOn with
  | nil => rfl
  | append_singleton calls call ih =>
    unfold jsonCalls at ih ⊢
    rw [foldl_append, foldl_cons, foldl_nil]
    split
    · rename_i v' modified
      rw [mem_append, ← ih]
      exact Val.refs_modify modified fun w w' ran => Call.refs_run ran
    · exact ih

end Refs

/-- The getters see the value as it reads in the memory of the call. -/
theorem jsonGet_read (v : Val) (text : List UInt8) :
    (jsonGet m v text).map (Val.read m) = jsonGet m' (v.read m) text := by
  cases v with
  | list kind items =>
    cases kind with
    | arr => rfl
    | obj =>
      rw [Val.read, jsonGet, jsonGet, readItems_eq_map, List.find?_map, Option.map_map, Option.map_map]
      have same : (fun item : Option Key × Val => decide (item.1.map (Key.read m) = some text)) =
          (fun item => decide (item.1.map (Key.read m') = some text)) ∘
            fun item => (item.1.map fun k => .own (k.read m), item.2.read m) := by
        funext item
        rcases item with ⟨_ | _, _⟩ <;> rfl
      rw [same]
      rfl
  | _ => rfl

theorem Val.at_read (path : List Nat) (v : Val) : (v.at path).map (Val.read m) = (v.read m).at path := by
  induction path generalizing v with
  | nil => rfl
  | cons i path ih =>
    cases v with
    | list kind items =>
      rw [Val.read, Val.at, Val.at, readItems_eq_map, List.getElem?_map]
      cases items[i]? with
      | none => rfl
      | some item => exact ih item.2
    | _ => rfl

/-- What the getters and the print of a document return after the caller has changed its buffers is what they would have
returned before, exactly if the buffers that were passed as keys still read the same. -/
theorem json_owns_contents (m m' : Memory) (kind : Kind) (calls : List (List Nat × Call)) :
    ((jsonCalls m calls kind).1.read m' = (jsonCalls m calls kind).1.read m ∧
      ∀ path text, (((jsonCalls m calls kind).1.at path).bind fun j => jsonGet m' j text).map (Val.read m') =
        (((jsonCalls m calls kind).1.at path).bind fun j => jsonGet m j text).map (Val.read m)) ↔
      ∀ ref ∈ (jsonCalls m calls kind).2, (Key.borrowed ref.1 ref.2).read m' = (Key.borrowed ref.1 ref.2).read m := by
  have print := @Val.read_eq_iff m m' (jsonCalls m calls kind).1
  simp only [mem_refs_jsonCalls] at print
  refine ⟨fun same => print.mp same.1, fun same => ⟨print.mpr same, fun path text => ?_⟩⟩
  have get : ∀ mem, (((jsonCalls m calls kind).1.at path).bind fun j => jsonGet mem j text).map (Val.read mem) =
      (((jsonCalls m calls kind).1.read mem).at path).bind fun j => jsonGet m j text := fun mem => by
    rw [← Val.at_read]
    cases (jsonCalls m calls kind).1.at path with
    | none => rfl
    | some j => exact jsonGet_read j text
  rw [get, get, print.mpr same]

/-- A key buffer is reused for another text: the value is no longer found under the key that was set. -/
theorem json_borrows_key : ∃ m m' : Memory, (Key.borrowed 0 1).read m = [97] ∧
    jsonI64 m (jsonCalls m [([], .set 0 1 (.i64 5))] .obj).1 [97] = 5 ∧
      jsonI64 m' (jsonCalls m [([], .set 0 1 (.i64 5))] .obj).1 [97] = 0 :=
  ⟨fun _ _ => 97, fun _ _ => 98, rfl, rfl, rfl⟩

end Buffers

section Handles

def Val.items : Val → List Val
  | .list .arr items => items.map Prod.snd
  | _ => []

variable (r : Root) (j : Handle)

def jsonArrLen : Nat := ((r.val j).elim [] Val.items).length

def jsonArrGet (i : Nat) : Root × Option Handle :=
  r.borrow ((r.val j).bind fun v => v.items[i]?)

inductive Step
  | obj (j : Handle) (key : List UInt8)
  | arr (j : Handle) (key : List UInt8)
  | get (j : Handle) (i : Nat)

/-- The value that the call is about. -/
def Step.target : Step → Option Val
  | .obj j key => (r.val j).bind fun v => (jsonGet m v key).filter (Val.is .obj)
  | .arr j key => (r.val j).bind fun v => (jsonGet m v key).filter (Val.is .arr)
  | .get j i => (r.val j).bind fun v => v.items[i]?

def Step.run : Step → Root × Option Handle
  | .obj j key => jsonObj m r j key
  | .arr j key => jsonArr m r j key
  | .get j i => jsonArrGet r j i

variable (doc : Val) (steps : List Step)

/-- A document after a sequence of calls, with the number of those that returned a handle. -/
def navigate : Root × Nat :=
  steps.foldl (fun s step => ((step.run m s.1).1, s.2 + (step.run m s.1).2.toList.length)) (⟨doc, []⟩, 0)

theorem Step.run_eq (step : Step) : step.run m r = r.borrow (step.target m r) := by
  cases step <;> rfl

theorem navigate_children : (navigate m doc steps).1.children.length = (navigate m doc steps).2 := by
  induction steps using List.reverseRecOn with
  | nil => rfl
  | append_singleton steps step ih =>
    unfold navigate at ih ⊢
    rw [foldl_append, foldl_cons, foldl_nil, Step.run_eq, (Root.borrow_spec _ _).1, ih]

/-- After any sequence of navigation calls, a call returns a handle on the element or member exactly if that is there and
fewer than 64 calls have returned a handle before. -/
theorem json_navigation (m : Memory) (doc : Val) (steps : List Step) (step : Step) :
    ((step.run m (navigate m doc steps).1).2.isSome ↔
      (step.target m (navigate m doc steps).1).isSome ∧ (navigate m doc steps).2 < jsonMaxChildren) ∧
    (∀ h, (step.run m (navigate m doc steps).1).2 = some h →
      (step.run m (navigate m doc steps).1).1.val h = step.target m (navigate m doc steps).1) ∧
    ∀ j i, ((Step.get j i).target m (navigate m doc steps).1).isSome ↔ i < jsonArrLen (navigate m doc steps).1 j := by
  have spec := (navigate m doc steps).1.borrow_spec (step.target m (navigate m doc steps).1)
  rw [← Step.run_eq, navigate_children] at spec
  refine ⟨spec.2.1, spec.2.2, fun j i => ?_⟩
  cases at_ : (navigate m doc steps).1.val j <;> simp [Step.target, jsonArrLen, at_]

/-- The same element is asked for 65 times: it is there, and the last call returns NULL. -/
theorem json_navigation_exhausted : ∃ r, r = (navigate (fun _ _ => 0) (.list .arr [(none, .null)])
      (List.replicate 64 (.get .root 0))).1 ∧ jsonArrLen r .root = 1 ∧ (jsonArrGet r .root 0).2.isNone = true :=
  ⟨_, rfl, by decide +kernel, by decide +kernel⟩

end Handles

end Xylem.Encoding.Json
