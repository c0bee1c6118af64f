import Mathlib.Data.List.Chain
import SupportFile.JQuery.Lemmas.DeepSet
import SupportFile.SepList.Basic

/-!
This module contains how nested data is written as the fields of a form, and that the plugin reads it
back.
-/

namespace SerializeJson

variable {Num : Type}

mutual

/-- Data that a form can carry: the objects in an array have values only. -/
inductive Tree where
  | leaf (value : Scalar)
  | values (items : List Scalar)
  | records (rows : List (List (JsString × Scalar)))
  | object (children : Children)

inductive Children where
  | nil
  | cons (key : JsString) (tree : Tree) (rest : Children)

end

def Children.keys (children : Children) : List JsString :=
  match children with
  | .nil => []
  | .cons key _ rest => key :: rest.keys

mutual

/-- The values with the keys that lead to them. -/
def Tree.entries (tree : Tree) : List (List JsString × Scalar) :=
  match tree with
  | .leaf value => [([], value)]
  | .values items => items.map (fun value => ([[]], value))
  | .records rows => rows.flatMap (fun row => row.map (fun (key, value) => ([[], key], value)))
  | .object children => children.entries

def Children.entries (children : Children) : List (List JsString × Scalar) :=
  match children with
  | .nil => []
  | .cons key tree rest =>
    tree.entries.map (fun (keys, value) => (key :: keys, value)) ++ rest.entries

end

section Value

variable (numbers : Numbers Num) (opts : Opts Num)

def rowProps (row : List (JsString × Scalar)) : List (JsString × Value Num) :=
  row.map (fun (key, value) => (key, readValue numbers opts value))

def rowItem (row : List (JsString × Scalar)) : Option (Value Num) :=
  some (.object (ordered (rowProps numbers opts row)))

mutual

def Tree.value (tree : Tree) : Value Num :=
  match tree with
  | .leaf value => readValue numbers opts value
  | .values items => .array (items.map (fun value => some (readValue numbers opts value))) []
  | .records rows => .array (rows.map (rowItem numbers opts)) []
  | .object children => .object (ordered children.props)

def Children.props (children : Children) : List (JsString × Value Num) :=
  match children with
  | .nil => []
  | .cons key tree rest => (key, tree.value) :: rest.props

end

end Value

-- The key in front stands alone, and each of the others in brackets.
def inputName (keys : List JsString) : JsString :=
  match keys with
  | [] => []
  | key :: keys => key ++ keys.flatMap (fun key => 0x5b :: key ++ [0x5d])

def inputs (children : Children) : List Input :=
  children.entries.map (fun (keys, value) => { name := inputName keys, value := value })

section WellFormed

variable (opts : Opts Num) (realm : Realm)

structure IsKey (key : JsString) : Prop where
  ne_nil : key ≠ []
  not_bracket : 0x5b ∉ key
  not_inherited : realm.inherited key = false
  not_index : (opts.useIntKeysAsArrayIndex && isValidArrayIndex key) = false

structure IsRow (row : List (JsString × Scalar)) : Prop where
  ne_nil : row ≠ []
  nodup : (row.map Prod.fst).Nodup
  isKey : ∀ key ∈ row.map Prod.fst, IsKey opts realm key

/-- It is its first key that tells a row from the one before. -/
def Follows (row row' : List (JsString × Scalar)) : Prop :=
  ∀ entry ∈ row'.head?, entry.1 ∈ row.map Prod.fst

mutual

def Tree.WellFormed (tree : Tree) : Prop :=
  match tree with
  | .leaf _ => True
  | .values items => items ≠ [] ∧ items.length ≤ maxLength
  | .records rows => rows ≠ [] ∧ rows.length ≤ maxLength ∧ (∀ row ∈ rows, IsRow opts realm row)
      ∧ rows.IsChain Follows
  | .object children => children.keys ≠ [] ∧ children.WellFormed

def Children.WellFormed (children : Children) : Prop :=
  match children with
  | .nil => True
  | .cons key tree rest => IsKey opts realm key ∧ key ∉ rest.keys ∧ tree.WellFormed
      ∧ rest.WellFormed

end

end WellFormed

section Keys

end Keys

section SetAll

variable {numbers : Numbers Num} {opts : Opts Num}

def setAll (numbers : Numbers Num) (opts : Opts Num) (o : Value Num)
    (entries : List (List JsString × Scalar))
    : Except Failure (Value Num) :=
  entries.foldlM (fun o (keys, value) => deepSet opts o keys (readValue numbers opts value)) o

theorem setAll_cons {o o' : Value Num} {keys : List JsString} {value : Scalar}
    (h : deepSet opts o keys (readValue numbers opts value) = .ok o')
    (entries : List (List JsString × Scalar))
    : setAll numbers opts o ((keys, value) :: entries) = setAll numbers opts o' entries := by
  unfold setAll
  rw [List.foldlM_cons]
  dsimp only
  rw [h]
  rfl

theorem setAll_append {o o' : Value Num} {entries : List (List JsString × Scalar)}
    (h : setAll numbers opts o entries = .ok o') (entries' : List (List JsString × Scalar))
    : setAll numbers opts o (entries ++ entries') = setAll numbers opts o' entries' := by
  unfold setAll at *
  rw [List.foldlM_append, h]
  rfl

theorem setAll_values (done : List (Option (Value Num))) {items : List Scalar}
    (hlength : done.length + items.length ≤ maxLength)
    : setAll numbers opts (.array done []) (items.map (fun value => ([[]], value)))
        =
      .ok (.array (done ++ items.map (fun value => some (readValue numbers opts value))) []) := by
  induction items generalizing done with
  | nil => simp [setAll, pure, Except.pure]
  | cons value items ih =>
    rw [List.length_cons] at hlength
    rw [List.map_cons, setAll_cons (deepSet_array_push (by omega) _), ih]
    . simp
    . rw [List.length_append, List.length_singleton]
      omega

theorem keys_rowProps (row : List (JsString × Scalar))
    : (rowProps numbers opts row).map Prod.fst = row.map Prod.fst := by
  unfold rowProps
  rw [List.map_map]
  rfl

theorem setAll_row {items : List (Option (Value Num))} (hlength : items.length < maxLength)
    {done row : List (JsString × Scalar)} (hnodup : ((done ++ row).map Prod.fst).Nodup)
    (hne : ∀ key ∈ row.map Prod.fst, key ≠ [])
    : setAll numbers opts (.array (items ++ [rowItem numbers opts done]) [])
        (row.map (fun (key, value) => ([[], key], value)))
        =
      .ok (.array (items ++ [rowItem numbers opts (done ++ row)]) []) := by
  induction row generalizing done with
  | nil => simp [setAll, pure, Except.pure]
  | cons entry row ih =>
    rcases entry with ⟨key, value⟩
    have hkey : key ∉ (rowProps numbers opts done).map Prod.fst := by
      rw [keys_rowProps]
      simp only [List.map_append, List.map_cons, List.nodup_append, List.mem_cons] at hnodup
      intro hmem
      exact hnodup.right.right key hmem key (.inl rfl) rfl
    have hkey' : key ∉ (ordered (rowProps numbers opts done)).map Prod.fst := by
      rwa [mem_keys_ordered]
    have hstep := @deepSet_array_same _ opts items _ _ (hne key (by simp)) hkey' hlength
      (readValue numbers opts value)
    have hdone : rowProps numbers opts done ++ [(key, readValue numbers opts value)]
        = rowProps numbers opts (done ++ [(key, value)]) := by
      simp [rowProps]
    rw [assign_ordered hkey, hdone] at hstep
    rw [List.map_cons, rowItem, setAll_cons hstep]
    rw [List.append_cons] at hnodup
    have hrest := ih hnodup (fun key' hkey' => hne key' (List.mem_cons_of_mem _ hkey'))
    rw [List.append_assoc, List.singleton_append] at hrest
    exact hrest

theorem setAll_records {realm : Realm} {done rows : List (List (JsString × Scalar))}
    (hlength : (done ++ rows).length ≤ maxLength) (hrows : ∀ row ∈ rows, IsRow opts realm row)
    (hchain : (done ++ rows).IsChain Follows)
    : setAll numbers opts (.array (done.map (rowItem numbers opts)) [])
        (rows.flatMap (fun row => row.map (fun (key, value) => ([[], key], value))))
        =
      .ok (.array ((done ++ rows).map (rowItem numbers opts)) []) := by
  induction rows generalizing done with
  | nil => simp [setAll, pure, Except.pure]
  | cons row rows ih =>
    rw [List.forall_mem_cons] at hrows
    rcases row with _ | ⟨⟨key, value⟩, row⟩
    . exact absurd rfl hrows.left.ne_nil
    . have hkey := hrows.left.isKey key (by simp)
      have hlt : (done.map (rowItem numbers opts)).length < maxLength := by
        rw [List.length_append, List.length_cons] at hlength
        rw [List.length_map]
        omega
      have hlast : ∀ last ∈ (done.map (rowItem numbers opts)).getLast?,
          ∃ lastVal, last = some lastVal ∧ (lastVal.get key).isSome := by
        intro last hlast
        rw [List.getLast?_map, Option.mem_def, Option.map_eq_some_iff] at hlast
        rcases hlast with ⟨last, hlast, rfl⟩
        have hmem := (List.isChain_append.mp hchain).right.right last hlast _ rfl (key, value) rfl
        refine ⟨_, rfl, ?_⟩
        rw [Value.get, ← Option.ne_none_iff_isSome, ne_eq, lookup_eq_none_iff, not_not,
          mem_keys_ordered, keys_rowProps]
        exact hmem
      have hnext := deepSet_array_next hkey.ne_nil hkey.not_index hlt hlast
        (readValue numbers opts value)
      have hrest := @setAll_row _ numbers opts _ hlt [(key, value)] row
        (by simpa using hrows.left.nodup)
        (fun key' hkey' => (hrows.left.isKey key' (List.mem_cons_of_mem _ hkey')).ne_nil)
      have hmap : done.map (rowItem numbers opts) ++ [rowItem numbers opts ([(key, value)] ++ row)]
          = (done ++ [(key, value) :: row]).map (rowItem numbers opts) := by
        simp
      rw [hmap] at hrest
      rw [List.append_cons] at hlength hchain ⊢
      rw [List.flatMap_cons, List.map_cons, List.cons_append, setAll_cons hnext]
      exact (setAll_append hrest _).trans (ih hlength hrows.right hchain)

/-- What is set below one key stays there. -/
theorem setAll_below (props : List (JsString × Value Num)) {key : JsString} (hkey : key ≠ [])
    {entries : List (List JsString × Scalar)} (hentries : ∀ entry ∈ entries, entry.1 ≠ [])
    (inner : Value Num)
    : setAll numbers opts (.object (assign props key inner))
        (entries.map (fun (keys, value) => (key :: keys, value)))
        =
      (setAll numbers opts inner entries).map (fun inner => .object (assign props key inner)) := by
  induction entries generalizing inner with
  | nil => rfl
  | cons entry entries ih =>
    rw [List.forall_mem_cons] at hentries
    rcases entry with ⟨_ | ⟨nextKey, tail⟩, value⟩
    . exact absurd rfl hentries.left
    . have hset := @deepSet_object_cons _ opts (assign props key inner) _ hkey nextKey tail
        (readValue numbers opts value)
      rw [lookup_assign, Option.getD_some] at hset
      unfold setAll at ih ⊢
      rw [List.map_cons, List.foldlM_cons, List.foldlM_cons]
      dsimp only
      rw [hset]
      cases deepSet opts inner (nextKey :: tail) (readValue numbers opts value) with
      | error failure => rfl
      | ok inner =>
        simp only [Except.map, assign_assign]
        exact ih hentries.right inner

end SetAll

section Tree

variable {numbers : Numbers Num} {opts : Opts Num} {realm : Realm}

-- What the first of the values below makes of an object without the key.
def Tree.container (tree : Tree) : Value Num :=
  match tree with
  | .leaf _ | .object _ => .object []
  | .values _ | .records _ => .array [] []

mutual

theorem Tree.entries_ne_nil {tree : Tree} (h : tree.WellFormed opts realm) : tree.entries ≠ [] := by
  cases tree with
  | leaf value => simp [Tree.entries]
  | values items =>
    rw [Tree.WellFormed] at h
    rw [Tree.entries, ne_eq, List.map_eq_nil_iff]
    exact h.left
  | records rows =>
    rw [Tree.WellFormed] at h
    rw [Tree.entries]
    cases rows with
    | nil => exact absurd rfl h.left
    | cons row rows =>
      have hrow := (h.right.right.left row (by simp)).ne_nil
      rw [List.flatMap_cons]
      simp [hrow]
  | object children =>
    rw [Tree.WellFormed] at h
    rw [Tree.entries]
    exact Children.entries_ne_nil h.right h.left

theorem Children.entries_ne_nil {children : Children} (h : children.WellFormed opts realm)
    (hkeys : children.keys ≠ [])
    : children.entries ≠ [] := by
  cases children with
  | nil => exact absurd rfl hkeys
  | cons key tree rest =>
    rw [Children.WellFormed] at h
    have hne := Tree.entries_ne_nil h.right.right.left
    rw [Children.entries]
    simp [hne]

end

theorem Children.ne_nil_of_mem_entries (children : Children)
    : ∀ entry ∈ children.entries, entry.1 ≠ [] := by
  cases children with
  | nil => simp [Children.entries]
  | cons key tree rest =>
    rw [Children.entries, List.forall_mem_append, List.forall_mem_map]
    constructor
    . simp
    . exact rest.ne_nil_of_mem_entries

theorem Tree.ne_nil_of_mem_entries {tree : Tree} (htree : ∀ value, tree ≠ .leaf value)
    : ∀ entry ∈ tree.entries, entry.1 ≠ [] := by
  cases tree with
  | leaf value => exact absurd rfl (htree value)
  | values items =>
    rw [Tree.entries, List.forall_mem_map]
    simp
  | records rows =>
    simp only [Tree.entries, List.mem_flatMap, List.mem_map]
    rintro entry ⟨row, _, ⟨key, value⟩, _, rfl⟩
    simp
  | object children =>
    rw [Tree.entries]
    exact children.ne_nil_of_mem_entries

theorem Tree.exists_first {tree : Tree} (h : tree.WellFormed opts realm)
    (htree : ∀ value, tree ≠ .leaf value)
    : ∃ nextKey tail value more, tree.entries = (nextKey :: tail, value) :: more
        ∧ newContainer opts nextKey = tree.container := by
  cases tree with
  | leaf value => exact absurd rfl (htree value)
  | values items =>
    rw [Tree.WellFormed] at h
    cases items with
    | nil => exact absurd rfl h.left
    | cons value items => exact ⟨[], [], value, _, rfl, rfl⟩
  | records rows =>
    rw [Tree.WellFormed] at h
    rcases rows with _ | ⟨_ | ⟨⟨key, value⟩, row⟩, rows⟩
    . exact absurd rfl h.left
    . exact absurd rfl (h.right.right.left [] (by simp)).ne_nil
    . exact ⟨[], [key], value, _, rfl, rfl⟩
  | object children =>
    rw [Tree.WellFormed] at h
    cases children with
    | nil => exact absurd rfl h.left
    | cons key tree rest =>
      have hrest := h.right
      rw [Children.WellFormed] at hrest
      rcases List.exists_cons_of_ne_nil (Tree.entries_ne_nil hrest.right.right.left) with
        ⟨⟨keys, value⟩, more, heq⟩
      refine ⟨key, keys, value,
        more.map (fun (keys, value) => (key :: keys, value)) ++ rest.entries, ?_, ?_⟩
      . rw [Tree.entries, Children.entries, heq]
        rfl
      . simp [newContainer, Tree.container, hrest.left.ne_nil, hrest.left.not_index]

theorem setAll_container {props : List (JsString × Value Num)} {key : JsString} (hkey : key ≠ [])
    (hprops : key ∉ props.map Prod.fst) {tree : Tree} (h : tree.WellFormed opts realm)
    (htree : ∀ value, tree ≠ .leaf value)
    : setAll numbers opts (.object props)
        (tree.entries.map (fun (keys, value) => (key :: keys, value)))
        =
      setAll numbers opts (.object (assign props key tree.container))
        (tree.entries.map (fun (keys, value) => (key :: keys, value))) := by
  rcases Tree.exists_first h htree with ⟨nextKey, tail, value, more, heq, hcontainer⟩
  unfold setAll
  rw [heq, List.map_cons, List.foldlM_cons, List.foldlM_cons]
  dsimp only
  rw [deepSet_container hkey hprops, hcontainer]

mutual

theorem Tree.setAll_entries {tree : Tree} (h : tree.WellFormed opts realm)
    (htree : ∀ value, tree ≠ .leaf value)
    : setAll numbers opts tree.container tree.entries = .ok (tree.value numbers opts) := by
  cases tree with
  | leaf value => exact absurd rfl (htree value)
  | values items =>
    rw [Tree.WellFormed] at h
    rw [Tree.container, Tree.entries, Tree.value, setAll_values [] (by simpa using h.right)]
    rfl
  | records rows =>
    rw [Tree.WellFormed] at h
    rcases h with ⟨_, hlength, hrows, hchain⟩
    rw [Tree.container, Tree.entries, Tree.value]
    exact @setAll_records _ numbers opts _ [] rows hlength hrows hchain
  | object children =>
    rw [Tree.WellFormed] at h
    rw [Tree.container, Tree.entries, Tree.value]
    exact @Children.setAll_entries children [] h.right (by simp)

theorem Children.setAll_entries {children : Children} {props : List (JsString × Value Num)}
    (h : children.WellFormed opts realm)
    (hprops : ∀ key ∈ children.keys, key ∉ props.map Prod.fst)
    : setAll numbers opts (.object (ordered props)) children.entries
        =
      .ok (.object (ordered (props ++ children.props numbers opts))) := by
  cases children with
  | nil => simp [setAll, Children.entries, Children.props, pure, Except.pure]
  | cons key tree rest =>
    rw [Children.WellFormed] at h
    rcases h with ⟨hkey, hdistinct, htree, hrest⟩
    rw [Children.keys, List.forall_mem_cons] at hprops
    have hordered : key ∉ (ordered props).map Prod.fst := by
      rw [mem_keys_ordered]
      exact hprops.left
    have hfirst : setAll numbers opts (.object (ordered props))
        (tree.entries.map (fun (keys, value) => (key :: keys, value)))
        = .ok (.object (ordered (props ++ [(key, tree.value numbers opts)]))) := by
      rw [← assign_ordered hprops.left]
      by_cases hleaf : ∃ value, tree = .leaf value
      . rcases hleaf with ⟨value, rfl⟩
        rw [Tree.entries, List.map_singleton,
          setAll_cons (deepSet_object_singleton _ hkey.ne_nil _)]
        rfl
      . rw [not_exists] at hleaf
        rw [setAll_container hkey.ne_nil hordered htree hleaf,
          setAll_below _ hkey.ne_nil (Tree.ne_nil_of_mem_entries hleaf),
          Tree.setAll_entries htree hleaf]
        rfl
    have hprops' : ∀ key' ∈ rest.keys,
        key' ∉ (props ++ [(key, tree.value numbers opts)]).map Prod.fst := by
      intro key' hkey'
      rw [List.map_append, List.mem_append, not_or]
      refine ⟨hprops.right key' hkey', ?_⟩
      rw [List.map_singleton, List.mem_singleton]
      rintro rfl
      contradiction
    rw [Children.entries, setAll_append hfirst, Children.setAll_entries hrest hprops', Children.props,
      List.append_assoc]
    rfl

end

end Tree

section RoundTrip

variable {numbers : Numbers Num} {opts : Opts Num} {realm : Realm}

structure IsPath (realm : Realm) (keys : List JsString) : Prop where
  not_bracket : ∀ key ∈ keys, 0x5b ∉ key
  not_inherited : ∀ key ∈ keys, realm.inherited key = false

theorem IsPath.cons {key : JsString} (hkey : IsKey opts realm key) {keys : List JsString}
    (h : IsPath realm keys)
    : IsPath realm (key :: keys) := by
  constructor
  . rw [List.forall_mem_cons]
    exact ⟨hkey.not_bracket, h.not_bracket⟩
  . rw [List.forall_mem_cons]
    exact ⟨hkey.not_inherited, h.not_inherited⟩

mutual

theorem Tree.isPath {tree : Tree} (h : tree.WellFormed opts realm)
    : ∀ entry ∈ tree.entries, IsPath realm entry.1 := by
  cases tree with
  | leaf value =>
    rw [Tree.entries, List.forall_mem_singleton]
    constructor
    . simp
    . simp
  | values items =>
    rw [Tree.entries, List.forall_mem_map]
    intro value _
    constructor
    . simp
    . simpa using realm.not_nil
  | records rows =>
    rw [Tree.WellFormed] at h
    simp only [Tree.entries, List.mem_flatMap, List.mem_map]
    rintro entry ⟨row, hrow, ⟨key, value⟩, hentry, rfl⟩
    have hkey := (h.right.right.left row hrow).isKey key (List.mem_map_of_mem hentry)
    constructor
    . simpa using hkey.not_bracket
    . simpa using ⟨realm.not_nil, hkey.not_inherited⟩
  | object children =>
    rw [Tree.WellFormed] at h
    rw [Tree.entries]
    exact Children.isPath h.right

theorem Children.isPath {children : Children} (h : children.WellFormed opts realm)
    : ∀ entry ∈ children.entries, IsPath realm entry.1 := by
  cases children with
  | nil => simp [Children.entries]
  | cons key tree rest =>
    rw [Children.WellFormed] at h
    rw [Children.entries, List.forall_mem_append, List.forall_mem_map]
    constructor
    . intro entry hentry
      exact (Tree.isPath h.right.right.left entry hentry).cons h.left
    . exact Children.isPath h.right.right.right

end

end RoundTrip

section Example

end Example

end SerializeJson
