import TranslationKeys.Proofs.Node.Likeness
import TranslationKeys.Proofs.Node.Origins

/-!
# Layouts of a directive's key

The name of a directive can be given as a nested name, as a bare string, or in place of the whole
key. All three mean the same: a tree with some of its directives laid out in another way has the
keys that it had before. The last layout has no place for the argument of the directive, so there
the argument must not contribute keys of its own.
-/

namespace TranslationKeys

namespace Value

variable {before after : List (Value × Value)} {key v v' : Value} {k : String}

/-- A field that is not the changed one is found as before. -/
theorem lookup?_change (hkey : key ≠ .str k) :
    lookup? k (before ++ (key, v) :: after) = lookup? k (before ++ (key, v') :: after) := by
  have hother : Payload.isKey k key = false := by
    cases key with
    | str s => exact beq_eq_false_iff_ne.2 fun heq => hkey (congrArg Value.str heq)
    | _ => rfl
  have hfind (v : Value) : lookup? k (before ++ (key, v) :: after) =
      ((before.find? (Payload.isKey k ·.1)).or (after.find? (Payload.isKey k ·.1))).map
        Prod.snd := by
    change ((before ++ (key, v) :: after).find? (Payload.isKey k ·.1)).map Prod.snd = _
    rw [List.find?_append, List.find?_cons, hother]
  rw [hfind, hfind]

/-- The changed field is found unless the same field stands before it. -/
theorem lookup?_changed :
    lookup? k (before ++ (.str k, v) :: after) = some ((lookup? k before).getD v) := by
  change ((before ++ (.str k, v) :: after).find? (Payload.isKey k ·.1)).map Prod.snd = _
  have hself : Payload.isKey k (.str k) = true := beq_self_eq_true k
  rw [List.find?_append, List.find?_cons, hself]
  change _ = some (((before.find? (Payload.isKey k ·.1)).map Prod.snd).getD v)
  cases before.find? (Payload.isKey k ·.1) <;> rfl

end Value

namespace Mapping

/-- A name with the given text, of a template or of a script. -/
structure NamesAs (name : Mapping) (s : String) : Prop where
  /-- It is a name. -/
  kind : name.IsTyped "VIdentifier" ∨ name.IsTyped "Identifier"
  /-- It has the text. -/
  text : Value.lookup? "name" name = some (.str s)

/-- A mapping that contributes no key when it is read and walked on its own. -/
def IsKeyless (m : Mapping) : Prop :=
  ∀ n, Node.ofEntries m = .ok n →
    (Place.root n.linked).keysAlong VisitorKeys.default = .ok []

/-- The other layouts of a split key with a nested name. -/
inductive LaysOut : Mapping → Mapping → Prop where
  /-- The name as a bare string. -/
  | flat {before after name : Mapping} {s : String}
      (hkind : IsTyped (before ++ (.str "name", .map name) :: after) "VDirectiveKey")
      (hname : name.NamesAs s) :
      LaysOut (before ++ (.str "name", .map name) :: after)
        (before ++ (.str "name", .str s) :: after)
  /-- The name in place of the whole key. -/
  | whole {key name whole : Mapping} {s : String} (hkind : key.IsTyped "VDirectiveKey")
      (hfield : Value.lookup? "name" key = some (.map name)) (hname : name.NamesAs s)
      (hargument : ∀ argument kind, key.HoldsAt "argument" argument kind → argument.IsKeyless)
      (hwhole : whole.IsTyped "VIdentifier") (hs : Value.lookup? "name" whole = some (.str s)) :
      LaysOut key whole

/-- One directive somewhere in a mapping is laid out in another way. -/
inductive Relays : Mapping → Mapping → Prop where
  /-- The key of the directive itself. -/
  | key {before after key key' : Mapping}
      (hkind : Mapping.kind (before ++ (.str "key", .map key) :: after) = .ok "VAttribute")
      (hdirective :
        (Payload.ofEntries (before ++ (.str "key", .map key) :: after)).flag "directive" = true)
      (hkey : key.LaysOut key') :
      Relays (before ++ (.str "key", .map key) :: after)
        (before ++ (.str "key", .map key') :: after)
  /-- A directive in a mapping that becomes a part of the node. -/
  | field {before after child child' : Mapping} {kind : String} {key : Value}
      (hkind : Mapping.kind (before ++ (key, .map child) :: after) = .ok kind)
      (hkey : Payload.ingests kind key = true) (hchild : child.Relays child') :
      Relays (before ++ (key, .map child) :: after) (before ++ (key, .map child') :: after)
  /-- A directive in a mapping in a sequence whose nodes become parts of the node. -/
  | item {before after child child' : Mapping} {kind : String} {key : Value}
      {sequence : List Value → Value} {first last : List Value}
      (hsequence : sequence = .list ∨ sequence = .tuple)
      (hkind : Mapping.kind (before ++ (key, sequence (first ++ .map child :: last)) :: after) =
        .ok kind)
      (hkey : Payload.ingests kind key = true) (hchild : child.Relays child') :
      Relays (before ++ (key, sequence (first ++ .map child :: last)) :: after)
        (before ++ (key, sequence (first ++ .map child' :: last)) :: after)

end Mapping

/-! ### Keys that look the same below an attribute -/

/-- Two nodes from which a directive takes keys that look the same and contribute the same. -/
structure Node.IsKeyLike (n n' : Node) : Prop where
  /-- The attribute sees the same. -/
  outline : (Payload.attributeKey true (some n)).outline =
    (Payload.attributeKey true (some n')).outline
  /-- The same keys are contributed below an attribute. -/
  keys : ∀ grand, (Payload.attributeKey true (some n)).keysIn none grand =
    (Payload.attributeKey true (some n')).keysIn none grand

instance : Std.Refl Node.IsKeyLike := ⟨fun _ => ⟨rfl, fun _ => rfl⟩⟩

namespace Node

/-- Split keys with the same name are alike as keys if their arguments and modifiers contribute the
same below them. -/
theorem isKeyLike_directiveKey {mark mark' nameMark nameMark' : Mark Node}
    {name rawName rawName' : String} {argument argument' : Option Node}
    {modifiers modifiers' : List Node}
    (h : gather ((argument.toList ++ modifiers).flatMap (answers none none)) =
      gather ((argument'.toList ++ modifiers').flatMap (answers none none))) :
    (directiveKey mark (templateName nameMark name rawName) argument modifiers).IsKeyLike
      (directiveKey mark' (templateName nameMark' name rawName') argument' modifiers') where
  outline := rfl
  keys grand := by
    have hkeys (mark nameMark : Mark Node) (rawName : String) (argument : Option Node)
        (modifiers : List Node) : keysIn none grand
          (directiveKey mark (templateName nameMark name rawName) argument modifiers) =
        gather ([.ok none, .ok none] ++ (argument.toList ++ modifiers).flatMap
          (answers none none)) := by
      rw [keysIn, answers_eq]
      change gather (_ :: (templateName nameMark name rawName ::
        (argument.toList ++ modifiers)).flatMap (answers none none)) = _
      rw [List.flatMap_cons, answers_eq]
      rfl
    change keysIn none grand (directiveKey ..) = keysIn none grand (directiveKey ..)
    rw [hkeys, hkeys, gather_append, gather_append, h]

end Node

/-! ### The layouts of a key -/

namespace Mapping

section Names

variable {m name : Mapping} {s : String}

/-- A name of a template is read as one. -/
theorem exists_ofEntries_templateName (hkind : m.IsTyped "VIdentifier")
    (hs : Value.lookup? "name" m = some (.str s)) :
    ∃ mark rawName, Node.ofEntries m = .ok (.templateName mark s rawName) :=
  ⟨_, _, Payload.build_of_builds
    (.templateName ((Payload.kind_ofEntries m).trans hkind.kind_eq) (Payload.text_ofEntries hs))⟩

/-- The name of a directive that is nested is the text of the name. -/
theorem NamesAs.exists_keyName (h : name.NamesAs s)
    (hfield : Value.lookup? "name" m = some (.map name)) :
    ∃ mark rawName, (Payload.ofEntries m).keyName = .ok (.templateName mark s rawName) := by
  rcases h.kind with htyped | htyped
  · obtain ⟨mark, rawName, hread⟩ := exists_ofEntries_templateName htyped h.text
    have hholds : m.HoldsAt "name" name "VIdentifier" := ⟨hfield, htyped⟩
    exact ⟨mark, rawName, by rw [Payload.keyName, hholds.nodeAt_eq hread]; rfl⟩
  · have hread := Payload.build_of_builds (.identifier
      ((Payload.kind_ofEntries name).trans htyped.kind_eq) (Payload.text_ofEntries h.text))
    have hholds : m.HoldsAt "name" name "Identifier" := ⟨hfield, htyped⟩
    exact ⟨_, s, by rw [Payload.keyName, hholds.nodeAt_eq hread]; rfl⟩

/-- The name of a directive that is a bare string is the string. -/
theorem keyName_of_text (hfield : Value.lookup? "name" m = some (.str s)) :
    (Payload.ofEntries m).keyName = .ok (.templateName {} s s) := by
  have hnode : (Payload.ofEntries m).nodeAt "name" = .ok none := by
    rw [Payload.nodeAt, Payload.get?_ofEntries, hfield]
    rfl
  have htext : Payload.textIfTrue (.str s) = .ok s := by
    unfold Payload.textIfTrue
    split
    · rfl
    · rename_i hempty
      have hs : s = "" := by simpa [Value.isTrue] using hempty
      rw [hs]
  rw [Payload.keyName, hnode]
  change (Payload.textIfTrue ((Payload.ofEntries m).value "name") >>= _) = _
  rw [Payload.value_ofEntries hfield, htext]
  rfl

end Names

/-- The fields of a key other than its name are read as before. -/
theorem get?_ofEntries_change {before after : Mapping} {key v v' : Value} {k : String}
    (hkey : key ≠ .str k) : (Payload.ofEntries (before ++ (key, v) :: after)).get? k =
      (Payload.ofEntries (before ++ (key, v') :: after)).get? k := by
  rw [Payload.get?_ofEntries, Payload.get?_ofEntries, Value.lookup?_change hkey]

/-- Giving a nested name as a bare string keeps the name of a directive. -/
theorem exists_keyName_flat {before after name : Mapping} {s : String} {n : Node}
    (hname : name.NamesAs s)
    (h : (Payload.ofEntries (before ++ (.str "name", .map name) :: after)).keyName = .ok n) :
    ∃ text mark rawName mark' rawName', n = .templateName mark text rawName ∧
      (Payload.ofEntries (before ++ (.str "name", .str s) :: after)).keyName =
        .ok (.templateName mark' text rawName') := by
  cases hbefore : Value.lookup? "name" before with
  | some v =>
    -- An earlier entry for the name is the one that is read.
    have hfirst (w : Value) :
        (Payload.ofEntries (before ++ (.str "name", w) :: after)).get? "name" =
          some (Reading.ofValue v) := by
      rw [Payload.get?_ofEntries, Value.lookup?_changed, hbefore]
      rfl
    have hsame : (Payload.ofEntries (before ++ (.str "name", .str s) :: after)).keyName =
        (Payload.ofEntries (before ++ (.str "name", .map name) :: after)).keyName := by
      rw [Payload.keyName, Payload.keyName, Payload.nodeAt, Payload.nodeAt, Payload.value,
        Payload.value, hfirst, hfirst]
    obtain ⟨mark, text, rawName, rfl⟩ := Payload.exists_of_keyName h
    exact ⟨text, mark, rawName, mark, rawName, rfl, hsame.trans h⟩
  | none =>
    have hfound (w : Value) : Value.lookup? "name" (before ++ (.str "name", w) :: after) =
        some w := by
      rw [Value.lookup?_changed, hbefore]
      rfl
    obtain ⟨mark, rawName, hread⟩ := hname.exists_keyName (hfound (.map name))
    obtain rfl := Except.ok.inj (hread.symm.trans h)
    exact ⟨s, mark, rawName, {}, s, rfl, keyName_of_text (hfound (.str s))⟩

/-- A node that stands for no key is left out of the keys of a list. -/
theorem gather_flatMap_eq_nil {f : Node → List (Except Failure (Option Text))} {ns : List Node}
    (h : ∀ n ∈ ns, gather (f n) = .ok []) : gather (ns.flatMap f) = .ok [] := by
  induction ns with
  | nil => rfl
  | cons n ns ih =>
    obtain ⟨hn, hns⟩ := List.forall_mem_cons.1 h
    rw [List.flatMap_cons, gather_append, hn, ih hns]
    rfl

/-- A node that was read has no parent. -/
theorem parent_of_ofEntries {m : Mapping} {n : Node} (h : Node.ofEntries m = .ok n) :
    n.mark.parent = .absent := by
  cases builds_ofEntries h <;> rfl

/-- The argument of a split key contributes nothing if it does so on its own. -/
theorem gather_argument {key : Mapping} {argument : Option Node}
    (hkeyless : ∀ argument kind, key.HoldsAt "argument" argument kind → argument.IsKeyless)
    (h : (Payload.ofEntries key).keyArgument = .ok argument) :
    ∀ n ∈ argument.toList, gather (n.answers none none) = .ok [] := by
  intro n hn
  obtain rfl := Option.mem_toList.1 hn
  unfold Payload.keyArgument at h
  split at h
  · obtain rfl := Option.some.inj (Except.ok.inj h)
    rw [Node.answers_eq]
    rfl
  · obtain ⟨child, kind, hholds, hread⟩ := exists_holdsAt_of_nodeAt h
    rw [← Node.keysIn, ← Node.keysAlong_root_linked (parent_of_ofEntries hread)]
    exact hkeyless child kind hholds n hread

/-- A split key whose name is a bare string is read as a key that looks the same and contributes the
same. -/
theorem leads_of_flat {before after name : Mapping} {s : String}
    (hkind : IsTyped (before ++ (.str "name", .map name) :: after) "VDirectiveKey")
    (hname : name.NamesAs s) :
    Leads Node.IsKeyLike (Node.ofEntries (before ++ (.str "name", .map name) :: after))
      (Node.ofEntries (before ++ (.str "name", .str s) :: after)) := by
  intro n hn
  have hof := isOfKind_ofEntries hn hkind.kind_eq (by decide)
  have hsame {k : String} (hk : k ≠ "name") :
      (Payload.ofEntries (before ++ (.str "name", .map name) :: after)).get? k =
        (Payload.ofEntries (before ++ (.str "name", .str s) :: after)).get? k :=
    get?_ofEntries_change fun heq => hk (Value.str.inj heq).symm
  have hbuilds := builds_ofEntries hn
  cases hbuilds with
  | directiveKey hkind' hread hargument hmodifiers =>
    obtain ⟨text, mark, rawName, mark', rawName', rfl, hread'⟩ := exists_keyName_flat hname hread
    rw [Payload.kind, hsame (by decide)] at hkind'
    rw [Payload.keyArgument, Payload.value, Payload.nodeAt, hsame (by decide)] at hargument
    rw [Payload.nodesAt, hsame (by decide)] at hmodifiers
    exact ⟨_, Payload.build_of_builds (.directiveKey hkind' hread' hargument hmodifiers),
      Node.isKeyLike_directiveKey rfl⟩
  | _ => exact absurd hof Bool.false_ne_true

/-- A name in place of a split key is read as a key that looks the same and contributes the same. -/
theorem leads_of_whole {key name whole : Mapping} {s : String} (hkind : key.IsTyped "VDirectiveKey")
    (hfield : Value.lookup? "name" key = some (.map name)) (hname : name.NamesAs s)
    (hargument : ∀ argument kind, key.HoldsAt "argument" argument kind → argument.IsKeyless)
    (hwhole : whole.IsTyped "VIdentifier") (hs : Value.lookup? "name" whole = some (.str s)) :
    Leads Node.IsKeyLike (Node.ofEntries key) (Node.ofEntries whole) := by
  intro n hn
  have hof := isOfKind_ofEntries hn hkind.kind_eq (by decide)
  obtain ⟨mark', rawName', hread'⟩ := exists_ofEntries_templateName hwhole hs
  refine ⟨_, hread', ?_⟩
  have hbuilds := builds_ofEntries hn
  cases hbuilds with
  | @directiveKey _ argument modifiers _ hread hread' hmodifiers =>
    obtain ⟨mark, rawName, hs⟩ := hname.exists_keyName hfield
    obtain rfl := Except.ok.inj (hs.symm.trans hread)
    have hnone : gather ((argument.toList ++ modifiers.filter Payload.isTemplateName).flatMap
        (Node.answers none none)) = .ok [] := by
      refine gather_flatMap_eq_nil fun m hm => ?_
      rcases List.mem_append.1 hm with hm | hm
      · exact gather_argument hargument hread' m hm
      · have hname := (List.mem_filter.1 hm).2
        cases m with
        | templateName => rw [Node.answers_eq]; rfl
        | _ => exact absurd hname Bool.false_ne_true
    have hlike : Node.IsKeyLike
        (.directiveKey { span := (Payload.ofEntries key).span } (.templateName mark s rawName)
          argument (modifiers.filter Payload.isTemplateName))
        (.directiveKey { span := mark'.span } (.templateName mark' s rawName') none []) :=
      Node.isKeyLike_directiveKey hnone
    exact ⟨hlike.outline, hlike.keys⟩
  | _ => exact absurd hof Bool.false_ne_true

/-- Every layout of a split key is read as a key that looks the same and contributes the same. -/
theorem LaysOut.leads {key key' : Mapping} (h : key.LaysOut key') :
    Leads Node.IsKeyLike (Node.ofEntries key) (Node.ofEntries key') := by
  cases h with
  | flat hkind hname => exact leads_of_flat hkind hname
  | whole hkind hfield hname hargument hwhole hs =>
    exact leads_of_whole hkind hfield hname hargument hwhole hs

end Mapping

/-! ### Changes inside a mapping -/

section Changes

variable {r : Node → Node → Prop}

/-- The nodes of a sequence are related if the readings of its items are. -/
theorem Reading.leads_collect {xs ys : List Reading}
    (h : List.Forall₂ (fun x y => Option.Rel (Leads r) x.node y.node) xs ys) :
    Leads (List.Forall₂ r) (Reading.collect xs) (Reading.collect ys) := by
  have hnodes : List.Forall₂ (Leads r) (xs.filterMap Reading.node)
      (ys.filterMap Reading.node) := by
    induction h with
    | nil => exact .nil
    | @cons x y _ _ hxy _ ih =>
      rw [List.filterMap_cons, List.filterMap_cons]
      generalize x.node = node at hxy
      generalize y.node = node' at hxy
      cases hxy with
      | none => exact ih
      | some hread => exact .cons hread ih
  exact Leads.mapM hnodes fun _ _ hread => hread

variable {child child' : Mapping}

/-- A mapping can take the place of another one if both or none are typed and their nodes are
related. -/
theorem Reading.canBecome_map
    (htyped : (Payload.ofEntries child).isTyped = (Payload.ofEntries child').isTyped)
    (h : Leads r (Node.ofEntries child) (Node.ofEntries child')) :
    (Reading.ofValue (.map child)).CanBecome r (Reading.ofValue (.map child')) := by
  rw [Reading.ofValue, Reading.ofValue, htyped]
  refine ⟨fun s => ⟨(nomatch ·), (nomatch ·)⟩, ?_, .pure .nil⟩
  simp only
  split
  · exact .some h
  · exact .none

/-- A sequence can take the place of one that differs in one item. -/
theorem Reading.canBecome_sequence [Std.Refl r] {sequence : List Value → Value} {v v' : Value}
    {first last : List Value} (hsequence : sequence = .list ∨ sequence = .tuple)
    (h : (Reading.ofValue v).CanBecome r (Reading.ofValue v')) :
    (Reading.ofValue (sequence (first ++ v :: last))).CanBecome r
      (Reading.ofValue (sequence (first ++ v' :: last))) := by
  have hitems : List.Forall₂ (fun x y => Option.Rel (Leads r) (Reading.node x) y.node)
      ((first ++ v :: last).map Reading.ofValue) ((first ++ v' :: last).map Reading.ofValue) := by
    have hsame (vs : List Value) : List.Forall₂
        (fun x y => Option.Rel (Leads r) (Reading.node x) y.node)
        (vs.map Reading.ofValue) (vs.map Reading.ofValue) :=
      List.forall₂_same.2 fun x _ => (Reading.CanBecome.refl x).node
    rw [List.map_append, List.map_append, List.map_cons, List.map_cons]
    exact List.rel_append (hsame first) (.cons h.node (hsame last))
  obtain rfl | rfl := hsequence
  · rw [Reading.ofValue, Reading.ofValue, Reading.ofItems_eq_map, Reading.ofItems_eq_map]
    exact ⟨fun s => ⟨(nomatch ·), (nomatch ·)⟩, .none,
      Reading.leads_collect hitems⟩
  · rw [Reading.ofValue, Reading.ofValue, Reading.ofItems_eq_map, Reading.ofItems_eq_map]
    exact ⟨fun s => ⟨(nomatch ·), (nomatch ·)⟩, .none,
      Reading.leads_collect hitems⟩

/-- A mapping in which one field that may change is changed. -/
theorem Payload.canBecome_change [Std.Refl r] {changes : Value → Bool} {before after : Mapping}
    {key v v' : Value} (hkey : changes key = true)
    (h : (Reading.ofValue v).CanBecome r (Reading.ofValue v')) :
    (Payload.ofEntries (before ++ (key, v) :: after)).CanBecome r changes
      (Payload.ofEntries (before ++ (key, v') :: after)) := by
  have hsame (m : Mapping) : Payload.CanBecome r changes
      (m.map fun entry => (entry.1, Reading.ofValue entry.2))
      (m.map fun entry => (entry.1, Reading.ofValue entry.2)) :=
    List.forall₂_same.2 fun entry _ => ⟨rfl, .refl _, fun _ => rfl⟩
  rw [Payload.ofEntries_eq_map, Payload.ofEntries_eq_map, List.map_append, List.map_append,
    List.map_cons, List.map_cons]
  exact List.rel_append (hsame before) (.cons ⟨rfl, h, fun hno => nomatch hkey.symm.trans hno⟩
    (hsame after))

end Changes

namespace Mapping

variable {m m' : Mapping}

/-- A mapping with another layout states the same kind. -/
theorem Relays.lookup?_type (h : m.Relays m') :
    Value.lookup? "type" m = Value.lookup? "type" m' := by
  have hne {kind : String} {key : Value} (hkey : Payload.ingests kind key = true) :
      key ≠ .str "type" := by
    rintro rfl
    exact nomatch hkey.symm.trans (Payload.ingests_type kind)
  cases h with
  | key => exact Value.lookup?_change (by simp)
  | field _ hkey => exact Value.lookup?_change (hne hkey)
  | item _ _ hkey => exact Value.lookup?_change (hne hkey)

/-- A mapping that states the same kind is typed if the other is. -/
theorem isTyped_ofEntries_eq (h : Value.lookup? "type" m = Value.lookup? "type" m') :
    (Payload.ofEntries m).isTyped = (Payload.ofEntries m').isTyped := by
  rw [Payload.isTyped, Payload.isTyped, Payload.value, Payload.value, Payload.get?_ofEntries,
    Payload.get?_ofEntries, h]

/-- A mapping that states its kind as a string is typed. -/
theorem IsTyped.isTyped_ofEntries {kind : String} (h : m.IsTyped kind) :
    (Payload.ofEntries m).isTyped = true := by
  rw [Payload.isTyped, Payload.value_ofEntries h]

/-- Both layouts of a key are typed. -/
theorem LaysOut.isTyped_eq {key key' : Mapping} (h : key.LaysOut key') :
    (Payload.ofEntries key).isTyped = (Payload.ofEntries key').isTyped := by
  cases h with
  | flat => exact isTyped_ofEntries_eq (Value.lookup?_change (by simp))
  | whole hkind _ _ _ hwhole => rw [hkind.isTyped_ofEntries, hwhole.isTyped_ofEntries]

/-- A directive whose key is laid out in another way is read as an attribute that is alike. -/
theorem leads_of_laysOut {before after key key' : Mapping}
    (hkind : Mapping.kind (before ++ (.str "key", .map key) :: after) = .ok "VAttribute")
    (hdirective :
      (Payload.ofEntries (before ++ (.str "key", .map key) :: after)).flag "directive" = true)
    (hkey : key.LaysOut key') :
    Leads Node.Alike (Node.ofEntries (before ++ (.str "key", .map key) :: after))
      (Node.ofEntries (before ++ (.str "key", .map key') :: after)) := by
  have hchange : (Payload.ofEntries (before ++ (.str "key", .map key) :: after)).CanBecome
      Node.IsKeyLike (Payload.isKey "key")
      (Payload.ofEntries (before ++ (.str "key", .map key') :: after)) :=
    Payload.canBecome_change rfl (Reading.canBecome_map hkey.isTyped_eq hkey.leads)
  intro n hn
  have hof := isOfKind_ofEntries hn hkind (by decide)
  have hbuilds := builds_ofEntries hn
  cases hbuilds with
  | @tagAttribute found value hkind' hread hvalue =>
    obtain ⟨found', hread', hlike⟩ := hchange.nodeAt "key" found hread
    rw [Payload.kind, hchange.get?_eq (by decide)] at hkind'
    rw [hchange.nodeAt_eq "value" (by decide)] at hvalue
    refine ⟨_, Payload.build_of_builds (.tagAttribute hkind' hread' hvalue), ?_⟩
    rw [← hchange.flag_eq "directive" (by decide), hdirective]
    have hvalues : Option.Rel Node.Alike (Payload.attributeValue value)
        (Payload.attributeValue value) := by
      cases Payload.attributeValue value with
      | none => exact .none
      | some value => exact .some (.refl value)
    cases hlike with
    | none => exact Node.alike_tagAttribute rfl (fun _ => rfl) hvalues
    | some hlike => exact Node.alike_tagAttribute hlike.outline hlike.keys hvalues
  | _ => exact absurd hof Bool.false_ne_true

/-- A mapping in which one directive is laid out in another way is read as a node that is alike. -/
theorem Relays.leads (h : m.Relays m') :
    Leads Node.Alike (Node.ofEntries m) (Node.ofEntries m') := by
  induction h with
  | key hkind hdirective hkey => exact leads_of_laysOut hkind hdirective hkey
  | @field before after child child' kind key hkind hkey hchild ih =>
    exact Payload.CanBecome.build ((Payload.kind_ofEntries _).trans hkind) <|
      Payload.canBecome_change hkey
        (Reading.canBecome_map (isTyped_ofEntries_eq hchild.lookup?_type) ih)
  | @item before after child child' kind key sequence first last hsequence hkind hkey hchild ih =>
    exact Payload.CanBecome.build ((Payload.kind_ofEntries _).trans hkind) <|
      Payload.canBecome_change hkey <| Reading.canBecome_sequence hsequence
        (Reading.canBecome_map (isTyped_ofEntries_eq hchild.lookup?_type) ih)

/-- The keys of the tree that a mapping stands for, under the default visitor keys. -/
def keys (m : Mapping) : Except Failure (List Text) := do
  (← Node.ofValue (.map m)).keysUnder .null

/-- The keys of a mapping are those of its node, by recursion. -/
theorem keys_of_ofEntries {n : Node} (h : Node.ofEntries m = .ok n) :
    m.keys = do
      let fromTemplate ← n.keysInTemplate
      let fromScript ← n.keysIn none none
      return firstSeen (fromTemplate ++ fromScript) := by
  rw [keys, Node.ofValue, h]
  exact Node.keysUnder_linked (parent_of_ofEntries h)

/-- One directive laid out in another way leaves the keys of a tree. -/
theorem Relays.keys_eq (h : m.Relays m') {found : List Text} (hm : m.keys = .ok found) :
    m'.keys = .ok found := by
  obtain ⟨tree, htree, -⟩ := bind_eq_ok_iff.1 hm
  obtain ⟨n, hn, -⟩ := bind_eq_ok_iff.1 htree
  obtain ⟨n', hn', halike⟩ := h.leads n hn
  rw [keys_of_ofEntries hn', ← halike.template, ← halike.keys, ← keys_of_ofEntries hn, hm]

/-- All layouts of directives mean the same. If any number of directives of a tree are laid out in
another way, the tree has the keys that it had before; and a tree with short integers has keys. -/
theorem keys_eq_of_relays (h : Relation.ReflTransGen Relays m m') :
    (∀ found, m.keys = .ok found → m'.keys = .ok found) ∧
      ((Value.map m).hasShortIntegers = true →
        ∃ found, m.keys = .ok found ∧ m'.keys = .ok found) := by
  have hkept : ∀ found, m.keys = .ok found → m'.keys = .ok found := by
    induction h with
    | refl => exact fun _ hm => hm
    | tail _ hstep ih => exact fun found hm => hstep.keys_eq (ih found hm)
  refine ⟨hkept, fun hshort => ?_⟩
  obtain ⟨n, hn, ⟨found, hfound⟩, -⟩ := Node.exists_ofValue_isWellTyped hshort
  have hm : m.keys = .ok found := by
    rw [keys, hn]
    exact hfound
  exact ⟨found, hm, hkept found hm⟩

/-- A directive with the given key, and with a value if it has one. -/
def directiveWith (key : Mapping) (value : Value) : Mapping :=
  [(.str "type", .str "VAttribute"), (.str "directive", .bool true), (.str "key", .map key),
    (.str "value", value)]

/-- A container of the literal `k`. -/
def literalContainer : Value :=
  .map [(.str "type", .str "VExpressionContainer"),
    (.str "expression", .map [(.str "type", .str "Literal"), (.str "value", .str "k")])]

/-- A split key with the given name and argument. -/
def splitKey (name argument : Value) : Mapping :=
  [(.str "type", .str "VDirectiveKey"), (.str "name", name), (.str "argument", argument)]

/-- A name of the given kind. -/
def nameOf (kind name : String) : Mapping :=
  [(.str "type", .str kind), (.str "name", .str name)]

/-- An element with two attributes. -/
def elementWith (first second : Mapping) : Mapping :=
  [(.str "type", .str "VElement"), (.str "name", .str "p"),
    (.str "startTag", .map [(.str "type", .str "VStartTag"),
      (.str "attributes", .list [.map first, .map second])])]

/-- An element with a translation and a binding, both with nested names. -/
def nestedLayout : Mapping :=
  elementWith (directiveWith (splitKey (.map (nameOf "VIdentifier" "t")) .null) literalContainer)
    (directiveWith (splitKey (.map (nameOf "Identifier" "bind")) (.str "title")) .null)

/-- The element with a bare string as the name of the translation, and a name in place of the key of
the binding. -/
def mixedLayout : Mapping :=
  elementWith (directiveWith (splitKey (.str "t") .null) literalContainer)
    (directiveWith (nameOf "VIdentifier" "bind") .null)

/-- Both layouts of the sample have the same keys. -/
theorem keys_nestedLayout_eq_mixedLayout :
    (Value.map nestedLayout).hasShortIntegers = true ∧
      Relation.ReflTransGen Relays nestedLayout mixedLayout ∧
      ∃ found, nestedLayout.keys = .ok found ∧ mixedLayout.keys = .ok found := by
  have hshort : (Value.map nestedLayout).hasShortIntegers = true := by decide +kernel
  have hfield {first second first' second' : Mapping}
      (h : Relays [(.str "type", .str "VStartTag"),
          (.str "attributes", .list [.map first, .map second])]
        [(.str "type", .str "VStartTag"),
          (.str "attributes", .list [.map first', .map second'])]) :
      Relays (elementWith first second) (elementWith first' second') :=
    @Relays.field [(.str "type", .str "VElement"), (.str "name", .str "p")] [] _ _ "VElement" _
      rfl (by decide) h
  have hkey {key key' : Mapping} {value : Value} (h : key.LaysOut key') :
      Relays (directiveWith key value) (directiveWith key' value) :=
    @Relays.key [(.str "type", .str "VAttribute"), (.str "directive", .bool true)]
      [(.str "value", value)] _ _ rfl rfl h
  have hsteps : Relation.ReflTransGen Relays nestedLayout mixedLayout := by
    refine .head (b := elementWith (directiveWith (splitKey (.str "t") .null) literalContainer)
      (directiveWith (splitKey (.map (nameOf "Identifier" "bind")) (.str "title")) .null))
      (hfield ?_) (.single (hfield ?_))
    · refine @Relays.item [(.str "type", .str "VStartTag")] [] _ _ "VStartTag" _ _ [] _
        (.inl rfl) rfl (by decide) (hkey ?_)
      exact @LaysOut.flat [(.str "type", .str "VDirectiveKey")] [(.str "argument", .null)] _ _
        rfl ⟨.inl rfl, rfl⟩
    · refine @Relays.item [(.str "type", .str "VStartTag")] [] _ _ "VStartTag" _ _ [.map _] []
        (.inl rfl) rfl (by decide) (hkey ?_)
      exact .whole rfl rfl ⟨.inr rfl, rfl⟩ (fun _ _ h => nomatch h.1) rfl rfl
  exact ⟨hshort, hsteps, (keys_eq_of_relays hsteps).2 hshort⟩

/-- A translation directive. -/
def translation : Mapping := directiveWith (splitKey (.str "t") .null) literalContainer

/-- A split key with a nested name and the translation directive as its argument. -/
def translatedKey : Mapping := splitKey (.map (nameOf "VIdentifier" "bind")) (.map translation)

/-- The node of the translation directive. -/
def translationNode : Node :=
  .tagAttribute {} true (.directiveKey {} (.templateName {} "t" "t") none [])
    (some (.container {} (some (.literal {} (.text (Text.ofString "k")) ""))))

/-- The translation directive calls nothing, yet it contributes a key; a key that has it as its
argument does not mean the same as its name alone. -/
theorem keys_translatedKey_ne_keys_name :
    (∀ m value, translation.Reaches m → ¬ m.IsTranslatorCall value) ∧
      (directiveWith translatedKey .null).keys = .ok [Text.ofString "k"] ∧
      (directiveWith (nameOf "VIdentifier" "bind") .null).keys = .ok [] := by
  refine ⟨fun m value hreach hcall => ?_, ?_, ?_⟩
  · have hread : Node.ofEntries translation = .ok translationNode := rfl
    cases hreach with
    | script hsteps =>
      obtain ⟨c, hc, hread⟩ := exists_mem_inOrder hsteps (by decide +kernel) hread
      have hof := isOfKind_ofEntries hread hcall.kind.kind_eq (by decide)
      simp [Node.inOrder_eq, Node.heldNodes_default, Node.held, translationNode] at hc
      rcases hc with rfl | rfl | rfl | rfl | rfl <;> exact absurd hof Bool.false_ne_true
    | template hkind => exact absurd hkind (by decide)
  · have hread : Node.ofEntries (directiveWith translatedKey .null) = .ok (.tagAttribute {} true
        (.directiveKey {} (.templateName {} "bind" "bind") (some translationNode) []) none) := rfl
    rw [keys_of_ofEntries hread]
    simp only [Node.keysInTemplate, Node.keysIn, Node.answers_eq, Node.held, translationNode,
      Option.toList, List.flatMap_cons, List.flatMap_nil, List.cons_append, List.nil_append]
    rfl
  · have hread : Node.ofEntries (directiveWith (nameOf "VIdentifier" "bind") .null) =
        .ok (.tagAttribute {} true (.directiveKey {} (.templateName {} "bind" "bind") none [])
          none) := rfl
    rw [keys_of_ofEntries hread]
    simp only [Node.keysInTemplate, Node.keysIn, Node.answers_eq, Node.held, Option.toList,
      List.flatMap_cons, List.flatMap_nil, List.cons_append, List.nil_append]
    rfl

end Mapping

end TranslationKeys
