import LocalHarness.Gateway.Switch
import LocalHarness.Serving.Route

/-! # The config the gateway is served with

`served` adds to the base config an entry for each text lane, and one for an adopted model that the base
does not list. A model is looked up among the names listed so far; the name of a lane's own entry is not,
so a base entry or a model of that name shares it with the lane.
-/

namespace LocalHarness.Gateway.Served

open LocalHarness.Library LocalHarness.Serving LocalHarness.Gateway.Switching

/-- How the values of a config are texts and numbers. -/
structure Values (ν : Type) where
  text : String → ν
  number : Nat → ν
  str : ν → String

def MLX_URL : String := "http://127.0.0.1:8081"

def MLX_MAX_PARALLEL : Nat := 16

variable {ν : Type} (v : Values ν)

def params (e : Switching.Entry ν) : Dict ν :=
  e.litellmParams.getD ∅

/-- The name an entry is looked up by. -/
def key (e : Switching.Entry ν) : String :=
  Text.lower (Text.strip (e.modelName.getD ""))

/-- `str(params.get(key, ""))` -/
def said (params : Dict ν) (key : String) : String :=
  ((params.lookup key).map v.str).getD ""

/-- An entry as `route` reads it. -/
def listing (e : Switching.Entry ν) : Serving.Entry where
  model_name := e.modelName.getD ""
  api_base := said v (params e) "api_base"
  model := said v (params e) "model"

/-- `_capped` -/
def capped (e : Switching.Entry ν) : Switching.Entry ν :=
  if trimmed (said v (params e) "api_base") ≠ MLX_URL ∨ "max_parallel_requests" ∈ params e then e
  else { e with litellmParams := some ((params e).insert "max_parallel_requests" (v.number MLX_MAX_PARALLEL)) }

/-- The parameters of a server of its own. -/
def direct (where_ : Route) : Dict ν :=
  .ofItems [("model", v.text ("openai/" ++ where_.model)), ("api_base", v.text (where_.base ++ "/v1")),
    ("api_key", v.text "not-needed")]

/-- Where a default is answered. An adopted method's alias serves its base. -/
def target (w : Setting) (base : Config ν) (defaults : Dict String) (lane : String) : Option Route :=
  let spec := (defaults.lookup lane).getD ""
  let answered := if Methods.base_of spec = "" then spec else Methods.base_of spec
  (route { w with config := base.map (listing v) } answered "").toOption

abbrev ByName (ν : Type) := Dict (Switching.Entry ν)

/-- What a lane adds, with the names listed after it. -/
def serveLane (byName : ByName ν) (lane : String) : Option Route → List (Switching.Entry ν) × ByName ν
  | none => ([], byName)
  | some where_ =>
      let name := Text.lower where_.model
      if where_.base = DEFAULT_GATEWAY then
        match byName.lookup name with
        | none => ([], byName)
        | some known => ([⟨some (laneAlias lane), some (params known)⟩], byName)
      else
        let own : Switching.Entry ν := ⟨some (laneAlias lane), some (direct v where_)⟩
        match byName.lookup name with
        | none =>
            let added : Switching.Entry ν := ⟨some where_.model, some (direct v where_)⟩
            ([added, own], byName.insert name added)
        | some _ => ([own], byName)

def serve (t : String → Option Route) : List String → ByName ν → List (Switching.Entry ν)
  | [], _ => []
  | lane :: lanes, byName =>
      (serveLane v byName lane (t lane)).1 ++ serve t lanes (serveLane v byName lane (t lane)).2

def byName (base : Config ν) : ByName ν :=
  .ofItems (base.map fun e => (key e, e))

def served (t : String → Option Route) (base : Config ν) : Config ν :=
  (base ++ serve v t TEXT_LANES (byName base)).map (capped v)

/-! ## What it is for -/

/-- The entry is there as it was, with a cap beside its parameters at most. -/
def Extends (e kept : Switching.Entry ν) : Prop :=
  kept.modelName = e.modelName ∧
    ∀ key value, (params e).lookup key = some value → (params kept).lookup key = some value

/-- The default is answered by a server of its own. -/
def Own (t : String → Option Route) (lane : String) (where_ : Route) : Prop :=
  t lane = some where_ ∧ where_.base ≠ DEFAULT_GATEWAY

/-- The lanes that are served before it. -/
def before (lane : String) : List String :=
  TEXT_LANES.takeWhile (· ≠ lane)

/-- The model is one of the base config, or is added for an earlier lane. -/
def Listed (t : String → Option Route) (base : Config ν) (lane : String) (where_ : Route) : Prop :=
  (∃ e ∈ base, key e = Text.lower where_.model) ∨
    ∃ l ∈ before lane, ∃ other, Own t l other ∧ Text.lower other.model = Text.lower where_.model

/-- The lane's default routes: to a server of its own, or to a model that is listed. -/
def Routes (t : String → Option Route) (base : Config ν) (lane : String) (where_ : Route) : Prop :=
  t lane = some where_ ∧ (where_.base = DEFAULT_GATEWAY → Listed t base lane where_)

/-- The entry is listed under the name, or under what is left of it between spaces. -/
def Named (e : Switching.Entry ν) (model : String) : Prop :=
  Text.lower (e.modelName.getD "") = Text.lower model ∨ key e = Text.lower model

/-- The parameters reach the deployment a route names: that of an entry of the config, or the server
itself, to which the model goes without the provider. -/
def Reaches (config : Config ν) (where_ : Route) (given : Dict ν) : Prop :=
  if where_.base = DEFAULT_GATEWAY then
    ∃ e ∈ config, Named e where_.model ∧ params e = given
  else
    given.lookup "model" = some (v.text ("openai/" ++ where_.model)) ∧
      given.lookup "api_base" = some (v.text (where_.base ++ "/v1"))

/-- The base entries are kept, each lane that routes has one entry, which reaches its model and is what is
read back for it, and no name that is added occurs twice. -/
structure Serves (t : String → Option Route) (base : Config ν) : Prop where
  kept : List.Forall₂ Extends base ((served v t base).take base.length)
  routed : ∀ lane ∈ TEXT_LANES, ∀ where_, Routes t base lane where_ →
    ∃ e ∈ (served v t base).drop base.length,
      (served v t base).filter (fun other => other.modelName = some (laneAlias lane)) = [e] ∧
        Reaches v (served v t base) where_ (params e) ∧
          (aliases (served v t base)).lookup lane = some (params e)
  unrouted : ∀ lane ∈ TEXT_LANES, (∀ where_, ¬ Routes t base lane where_) →
    (aliases (served v t base)).lookup lane = none
  once : ∀ e ∈ (served v t base).drop base.length,
    (served v t base).countP (fun other => other.modelName = e.modelName) = 1

variable {v} {t : String → Option Route} {base : Config ν} {b : ByName ν} {lane l : String}
  {lanes front back : List String} {where_ : Route} {e : Switching.Entry ν} {name : String}

/-! ## The lanes of a config -/

theorem laneAlias_injective : Function.Injective laneAlias := by
  intro a b same
  have chars := congrArg String.toList same
  rw [laneAlias, laneAlias, String.toList_append, String.toList_append] at chars
  exact String.toList_inj.mp (List.append_cancel_left chars)

theorem lane_eq_some_iff : e.lane = some lane ↔ lane ∈ TEXT_LANES ∧ e.modelName = some (laneAlias lane) := by
  constructor
  · intro found
    have found : TEXT_LANES.find? (fun lane => e.modelName = some (laneAlias lane)) = some lane := found
    have named := List.find?_some found
    exact ⟨List.mem_of_find?_eq_some found, by simpa using named⟩
  · rintro ⟨member, named⟩
    cases found : e.lane with
    | none =>
        have other := List.find?_eq_none.mp found lane member
        exact absurd named (by simpa using other)
    | some l =>
        have found' : TEXT_LANES.find? (fun lane => e.modelName = some (laneAlias lane)) = some l := found
        have named' := List.find?_some found'
        rw [named, decide_eq_true_eq, Option.some.injEq] at named'
        rw [laneAlias_injective named']

theorem before_eq (split : TEXT_LANES = front ++ lane :: back) : before lane = front := by
  have distinct : TEXT_LANES.Nodup := by decide
  rw [split] at distinct
  have outside : ∀ l ∈ front, decide (l ≠ lane) = true := fun l member => decide_eq_true fun same =>
    (List.nodup_append.mp distinct).2.2 l member lane List.mem_cons_self same
  rw [before, split, List.takeWhile_append_of_pos outside]
  simp

/-! ## Serving lane after lane -/

variable (v t) in
/-- The names that are listed after some lanes. -/
def listed : List String → ByName ν → ByName ν
  | [], b => b
  | lane :: lanes, b => listed lanes (serveLane v b lane (t lane)).2

theorem listed_append : listed v t (front ++ back) b = listed v t back (listed v t front b) := by
  induction front generalizing b with
  | nil => rfl
  | cons lane front ih => exact ih

theorem serve_append :
    serve v t (front ++ back) b = serve v t front b ++ serve v t back (listed v t front b) := by
  induction front generalizing b with
  | nil => rfl
  | cons lane front ih => rw [List.cons_append, serve, serve, ih, List.append_assoc]; rfl

/-- What one lane adds: its own entry, behind that of a model no one listed. -/
theorem mem_serveLane (member : e ∈ (serveLane v b lane (t lane)).1) : ∃ where_, t lane = some where_ ∧
    (e.modelName = some (laneAlias lane) ∧
        (where_.base = DEFAULT_GATEWAY → ∃ known, b.lookup (Text.lower where_.model) = some known ∧
          params e = params known) ∧
        (where_.base ≠ DEFAULT_GATEWAY → params e = direct v where_) ∨
      where_.base ≠ DEFAULT_GATEWAY ∧ b.lookup (Text.lower where_.model) = none ∧
        e = ⟨some where_.model, some (direct v where_)⟩) := by
  cases target : t lane with
  | none =>
      rw [target] at member
      cases member
  | some where_ =>
      refine ⟨where_, rfl, ?_⟩
      rw [target] at member
      simp only [serveLane] at member
      split at member
      next gateway =>
        split at member
        next => cases member
        next known found =>
          rw [List.mem_singleton] at member
          subst member
          exact .inl ⟨rfl, fun _ => ⟨known, found, rfl⟩, fun own => absurd gateway own⟩
      next own =>
        split at member
        next unknown =>
          rcases List.mem_cons.mp member with rfl | rest
          · exact .inr ⟨own, unknown, rfl⟩
          · rw [List.mem_singleton] at rest
            subst rest
            exact .inl ⟨rfl, fun gateway => absurd gateway own, fun _ => rfl⟩
        next =>
          rw [List.mem_singleton] at member
          subst member
          exact .inl ⟨rfl, fun gateway => absurd gateway own, fun _ => rfl⟩

/-- A lane whose model is listed, or whose server is its own, gets its entry. -/
theorem own_mem_serveLane (target : t lane = some where_)
    (known : where_.base = DEFAULT_GATEWAY → b.lookup (Text.lower where_.model) ≠ none) :
    ∃ e ∈ (serveLane v b lane (t lane)).1, e.modelName = some (laneAlias lane) := by
  rw [target]
  simp only [serveLane]
  split
  next gateway =>
    split
    next unknown => exact absurd unknown (known gateway)
    next => exact ⟨_, List.mem_singleton_self _, rfl⟩
  next =>
    split
    next => exact ⟨_, List.mem_cons_of_mem _ (List.mem_singleton_self _), rfl⟩
    next => exact ⟨_, List.mem_singleton_self _, rfl⟩

/-- The name of a model that is answered by a server of its own is listed from there on. -/
theorem lookup_serveLane : (serveLane v b lane (t lane)).2.lookup name ≠ none ↔
    b.lookup name ≠ none ∨ ∃ where_, Own t lane where_ ∧ Text.lower where_.model = name := by
  cases target : t lane with
  | none => simp [serveLane, Own, target]
  | some where_ =>
      simp only [serveLane]
      split
      next gateway =>
        have shared : ¬ ∃ where_, Own t lane where_ ∧ Text.lower where_.model = name := by
          rintro ⟨other, ⟨same, own⟩, -⟩
          rw [target, Option.some.injEq] at same
          exact own (same ▸ gateway)
        split <;> simp [shared]
      next own =>
        have only : (∃ where_, Own t lane where_ ∧ Text.lower where_.model = name) ↔
            Text.lower where_.model = name := by
          refine ⟨?_, fun same => ⟨where_, ⟨target, own⟩, same⟩⟩
          rintro ⟨other, ⟨same, -⟩, name_⟩
          rw [target, Option.some.injEq] at same
          rwa [same]
        rw [only]
        split
        next unknown =>
          by_cases same : name = Text.lower where_.model
          · rw [same, Finmap.lookup_insert]
            simp
          · rw [Finmap.lookup_insert_of_ne _ same]
            simp [Ne.symm same]
        next known found =>
          refine ⟨.inl, fun either => either.elim id ?_⟩
          rintro rfl
          rw [found]
          simp

theorem lookup_listed : (listed v t front b).lookup name ≠ none ↔
    b.lookup name ≠ none ∨ ∃ l ∈ front, ∃ where_, Own t l where_ ∧ Text.lower where_.model = name := by
  induction front generalizing b with
  | nil => simp [listed]
  | cons lane front ih =>
      rw [listed, ih, lookup_serveLane, List.exists_mem_cons_iff, or_assoc]

/-- A listed name is one that was known, or of an entry that was added. -/
theorem found_listed (found : (listed v t front b).lookup name = some e) :
    b.lookup name = some e ∨ e ∈ serve v t front b ∧ Text.lower (e.modelName.getD "") = name := by
  induction front generalizing b with
  | nil => exact .inl found
  | cons lane front ih =>
      rcases ih found with known | ⟨member, named⟩
      · have here : b.lookup name = some e ∨ e ∈ (serveLane v b lane (t lane)).1 ∧
            Text.lower (e.modelName.getD "") = name := by
          cases target : t lane with
          | none =>
              rw [target] at known
              exact .inl known
          | some where_ =>
              rw [target] at known
              simp only [serveLane] at known ⊢
              split at known
              next gateway => split at known <;> exact .inl known
              next own =>
                rw [if_neg own]
                split at known
                next unknown =>
                  by_cases same : name = Text.lower where_.model
                  · rw [same, Finmap.lookup_insert, Option.some.injEq] at known
                    rw [← known]
                    exact .inr ⟨List.mem_cons_self, same.symm⟩
                  · rw [Finmap.lookup_insert_of_ne _ same] at known
                    exact .inl known
                next => exact .inl known
        exact here.imp id fun added => ⟨List.mem_append_left _ added.1, added.2⟩
      · exact .inr ⟨List.mem_append_right _ member, named⟩

theorem mem_serve (member : e ∈ serve v t lanes b) : ∃ front lane back, lanes = front ++ lane :: back ∧
    e ∈ (serveLane v (listed v t front b) lane (t lane)).1 := by
  induction lanes generalizing b with
  | nil => cases member
  | cons lane lanes ih =>
      rcases List.mem_append.mp member with here | later
      · exact ⟨[], lane, lanes, rfl, here⟩
      · obtain ⟨front, l, back, rfl, inside⟩ := ih later
        exact ⟨lane :: front, l, back, rfl, inside⟩

theorem mem_serve_split (inside : e ∈ (serveLane v (listed v t front b) lane (t lane)).1) :
    e ∈ serve v t (front ++ lane :: back) b := by
  rw [serve_append, serve]
  exact List.mem_append_right _ (List.mem_append_left _ inside)

theorem lookup_byName : (byName base).lookup name ≠ none ↔ ∃ e ∈ base, key e = name := by
  rw [← Option.isSome_iff_ne_none, Finmap.lookup_isSome, ← Finmap.mem_keys, byName,
    Dict.mem_keys_ofItems, List.map_map, List.mem_map]
  rfl

/-- A name is looked up among those of the base config and the models added so far. -/
theorem listed_iff (split : TEXT_LANES = front ++ lane :: back) :
    (listed v t front (byName base)).lookup (Text.lower where_.model) ≠ none ↔
      Listed t base lane where_ := by
  rw [lookup_listed, lookup_byName, Listed, before_eq split]

/-! ## Names once each -/

/-- Where no model has the name of a lane's entry, no name is added twice. -/
theorem nodup_serve (distinct : lanes.Nodup)
    (models : ∀ front lane back where_, lanes = front ++ lane :: back → Own t lane where_ →
      (listed v t front b).lookup (Text.lower where_.model) = none →
        ∀ l ∈ lanes, where_.model ≠ laneAlias l) :
    ((serve v t lanes b).map Switching.Entry.modelName).Nodup := by
  induction lanes generalizing b with
  | nil => exact List.nodup_nil
  | cons lane lanes ih =>
      rw [List.nodup_cons] at distinct
      rw [serve, List.map_append]
      refine List.nodup_append.mpr ⟨?_, ih distinct.2 ?_, ?_⟩
      · cases target : t lane with
        | none => exact List.nodup_nil
        | some where_ =>
            simp only [serveLane]
            split
            next => split <;> simp
            next own =>
              split
              next unknown =>
                have other := models [] lane lanes where_ rfl ⟨target, own⟩ unknown lane
                  List.mem_cons_self
                simp [other]
              next => simp
      · intro front l back where_ split own unknown l' member
        exact models (lane :: front) l back where_ (by rw [split]; rfl) own unknown l'
          (List.mem_cons_of_mem lane member)
      · intro n here m later same
        obtain ⟨e, inside, rfl⟩ := List.mem_map.mp here
        obtain ⟨e', inside', rfl⟩ := List.mem_map.mp later
        obtain ⟨where_, target, kind⟩ := mem_serveLane inside
        obtain ⟨front, l, back, split, inside'⟩ := mem_serve inside'
        obtain ⟨where', target', kind'⟩ := mem_serveLane inside'
        have member : l ∈ lanes := split ▸ List.mem_append_right front List.mem_cons_self
        rcases kind with ⟨named, -⟩ | ⟨own, unknown, rfl⟩
        · rw [named] at same
          rcases kind' with ⟨named', -⟩ | ⟨own', unknown', rfl⟩
          · rw [named', Option.some.injEq] at same
            exact distinct.1 (laneAlias_injective same ▸ member)
          · exact models (lane :: front) l back where' (by rw [split]; rfl) ⟨target', own'⟩ unknown'
              lane List.mem_cons_self (Option.some.inj same).symm
        · rcases kind' with ⟨named', -⟩ | ⟨own', unknown', rfl⟩
          · rw [named'] at same
            exact models [] lane lanes where_ rfl ⟨target, own⟩ unknown l
              (List.mem_cons_of_mem lane member) (Option.some.inj same)
          · have known : Text.lower where_.model = Text.lower where'.model :=
              congrArg Text.lower (Option.some.inj same)
            exact lookup_listed.mpr (.inl (lookup_serveLane.mpr (.inr ⟨where_, ⟨target, own⟩, known⟩)))
              unknown'

/-! ## The cap -/

@[simp] theorem capped_modelName : (capped v e).modelName = e.modelName := by
  unfold capped
  split <;> rfl

theorem params_capped (e : Switching.Entry ν) : params (capped v e) =
    if trimmed (said v (params e) "api_base") ≠ MLX_URL ∨ "max_parallel_requests" ∈ params e then
      params e
    else (params e).insert "max_parallel_requests" (v.number MLX_MAX_PARALLEL) := by
  unfold capped
  split <;> rfl

theorem lookup_capped {value : ν} (found : (params e).lookup name = some value) :
    (params (capped v e)).lookup name = some value := by
  rw [params_capped]
  split
  next => exact found
  next free =>
    rw [not_or] at free
    rw [Finmap.lookup_insert_of_ne, found]
    rintro rfl
    exact free.2 (Finmap.mem_of_lookup_eq_some found)

theorem extends_capped : Extends e (capped v e) :=
  ⟨capped_modelName, fun _ _ found => lookup_capped found⟩

variable (v t base) in
/-- What is added to the base config. -/
def added : Config ν :=
  (serve v t TEXT_LANES (byName base)).map (capped v)

theorem served_eq : served v t base = base.map (capped v) ++ added v t base :=
  List.map_append

theorem take_served : (served v t base).take base.length = base.map (capped v) := by
  rw [served_eq]
  exact List.take_left' (List.length_map _)

theorem drop_served : (served v t base).drop base.length = added v t base := by
  rw [served_eq]
  exact List.drop_left' (List.length_map _)

/-- What is added is a lane's own entry, or that of a model that was not listed. -/
theorem mem_added (member : e ∈ added v t base) : ∃ lane ∈ TEXT_LANES, ∃ where_, t lane = some where_ ∧
    (e.modelName = some (laneAlias lane) ∧ Routes t base lane where_ ∧
        Reaches v (served v t base) where_ (params e) ∨
      e.modelName = some where_.model ∧ Own t lane where_ ∧ ¬ Listed t base lane where_) := by
  obtain ⟨plain, inside, rfl⟩ := List.mem_map.mp member
  obtain ⟨front, lane, back, split, inside⟩ := mem_serve inside
  obtain ⟨where_, target, kind⟩ := mem_serveLane inside
  refine ⟨lane, split ▸ List.mem_append_right front List.mem_cons_self, where_, target, ?_⟩
  rw [capped_modelName]
  refine kind.imp ?_ ?_
  · rintro ⟨named, shared, own⟩
    refine ⟨named, ⟨target, fun gateway => ?_⟩, ?_⟩
    · obtain ⟨known, found, -⟩ := shared gateway
      exact (listed_iff split).mp (by rw [found]; simp)
    · unfold Reaches
      split
      next gateway =>
        obtain ⟨known, found, same⟩ := shared gateway
        refine ⟨capped v known, ?_, ?_, by rw [params_capped, params_capped, same]⟩
        · refine List.mem_map_of_mem ?_
          rcases found_listed found with here | ⟨later, -⟩
          · have item := Dict.mem_of_lookup_ofItems here
            obtain ⟨e, inside, same⟩ := List.mem_map.mp item
            obtain ⟨-, rfl⟩ := Prod.mk.inj same
            exact List.mem_append_left _ inside
          · rw [split, serve_append]
            exact List.mem_append_right _ (List.mem_append_left _ later)
        · rw [Named, key, capped_modelName]
          rcases found_listed found with here | ⟨-, named⟩
          · have item := Dict.mem_of_lookup_ofItems here
            obtain ⟨e, -, same⟩ := List.mem_map.mp item
            obtain ⟨name, rfl⟩ := Prod.mk.inj same
            exact .inr name
          · exact .inl named
      next other =>
        rw [← ne_eq] at other
        have model : (direct v where_).lookup "model" = some (v.text ("openai/" ++ where_.model)) := by
          simp [direct, Dict.ofItems, Finmap.lookup_insert_of_ne]
        have base_ : (direct v where_).lookup "api_base" = some (v.text (where_.base ++ "/v1")) := by
          simp [direct, Dict.ofItems, Finmap.lookup_insert_of_ne]
        exact ⟨lookup_capped (own other ▸ model), lookup_capped (own other ▸ base_)⟩
  · rintro ⟨own, unknown, rfl⟩
    exact ⟨rfl, ⟨target, own⟩, fun known => (listed_iff split).mpr known unknown⟩

/-- A lane that routes gets its entry, in whatever part of the lanes it is. -/
theorem own_mem_serve {before_ among after : List String} (split : TEXT_LANES = before_ ++ among ++ after)
    (member : lane ∈ among) (routes : Routes t base lane where_) :
    ∃ e ∈ serve v t among (listed v t before_ (byName base)), e.modelName = some (laneAlias lane) := by
  obtain ⟨front, back, rfl⟩ := List.append_of_mem member
  have split : TEXT_LANES = (before_ ++ front) ++ lane :: (back ++ after) := by
    rw [split]
    simp
  obtain ⟨e, inside, named⟩ := own_mem_serveLane (v := v) routes.1
    fun gateway => (listed_iff split).mpr (routes.2 gateway)
  rw [listed_append] at inside
  exact ⟨e, mem_serve_split inside, named⟩

theorem own_mem_added (member : lane ∈ TEXT_LANES) (routes : Routes t base lane where_) :
    ∃ e ∈ added v t base, e.modelName = some (laneAlias lane) := by
  have split : TEXT_LANES = [] ++ TEXT_LANES ++ [] := by simp
  obtain ⟨e, inside, named⟩ := own_mem_serve (v := v) split member routes
  exact ⟨capped v e, List.mem_map_of_mem inside, capped_modelName.trans named⟩

/-! ## Reading the aliases back -/

theorem lookup_aliases {config : Config ν} (member : lane ∈ TEXT_LANES) :
    (aliases config).lookup lane = none ↔ ∀ e ∈ config, e.modelName ≠ some (laneAlias lane) := by
  have keys : (aliases config).lookup lane = none ↔ lane ∉ (aliases config).keys := by
    rw [Finmap.mem_keys, Finmap.lookup_eq_none]
  rw [keys, aliases, Dict.mem_keys_ofItems]
  constructor
  · intro none_ e inside named
    refine none_ (List.mem_map.mpr ⟨(lane, e.litellmParams.getD ∅), ?_, rfl⟩)
    exact List.mem_filterMap.mpr ⟨e, inside, by rw [lane_eq_some_iff.mpr ⟨member, named⟩]; rfl⟩
  · intro none_ found
    obtain ⟨item, inside, same⟩ := List.mem_map.mp found
    obtain ⟨e, here, made⟩ := List.mem_filterMap.mp inside
    obtain ⟨l, lane_, rfl⟩ := Option.map_eq_some_iff.mp made
    obtain rfl : l = lane := same
    exact none_ e here (lane_eq_some_iff.mp lane_).2

/-- The one entry of a lane is what is read back for it. -/
theorem lookup_aliases_of_one {config : Config ν} (member : lane ∈ TEXT_LANES)
    (one : config.filter (fun other => other.modelName = some (laneAlias lane)) = [e]) :
    (aliases config).lookup lane = some (params e) := by
  have here : e ∈ config ∧ e.modelName = some (laneAlias lane) := by
    have inside : e ∈ config.filter (fun other => other.modelName = some (laneAlias lane)) :=
      one ▸ List.mem_singleton_self e
    simpa using inside
  cases found : (aliases config).lookup lane with
  | none => exact absurd here.2 ((lookup_aliases member).mp found e here.1)
  | some given =>
      obtain ⟨other, inside, made⟩ := List.mem_filterMap.mp (Dict.mem_of_lookup_ofItems found)
      obtain ⟨l, lane_, same⟩ := Option.map_eq_some_iff.mp made
      obtain ⟨rfl, rfl⟩ := Prod.mk.inj same
      have only : other ∈ config.filter (fun other => other.modelName = some (laneAlias l)) :=
        List.mem_filter.mpr ⟨inside, decide_eq_true (lane_eq_some_iff.mp lane_).2⟩
      rw [one, List.mem_singleton] at only
      rw [only]
      rfl

/-! ## When each name is one entry's -/

/-- No base entry has the name of a lane's entry, and no model that is added has that of a lane's entry or
of a base entry. -/
structure Clear (t : String → Option Route) (base : Config ν) : Prop where
  free : ∀ e ∈ base, ∀ lane ∈ TEXT_LANES, e.modelName ≠ some (laneAlias lane)
  models : ∀ lane ∈ TEXT_LANES, ∀ where_, Own t lane where_ → ¬ Listed t base lane where_ →
    (∀ l ∈ TEXT_LANES, where_.model ≠ laneAlias l) ∧ ∀ e ∈ base, e.modelName ≠ some where_.model

theorem nodup_added (clear : Clear t base) : ((added v t base).map Switching.Entry.modelName).Nodup := by
  have distinct : TEXT_LANES.Nodup := by decide
  have plain : (added v t base).map Switching.Entry.modelName =
      (serve v t TEXT_LANES (byName base)).map Switching.Entry.modelName := by
    rw [added, List.map_map]
    exact List.map_congr_left fun e _ => capped_modelName
  rw [plain]
  refine nodup_serve distinct fun front lane back where_ split own unknown => ?_
  have member : lane ∈ TEXT_LANES := split ▸ List.mem_append_right front List.mem_cons_self
  exact (clear.models lane member where_ own fun known => (listed_iff split).mpr known unknown).1

/-- Nothing of the base has a name that is added. -/
theorem base_free (clear : Clear t base) (member : e ∈ added v t base) :
    (base.map (capped v)).filter (fun other => other.modelName = e.modelName) = [] := by
  refine List.filter_eq_nil_iff.mpr fun other inside same => ?_
  obtain ⟨plain, here, rfl⟩ := List.mem_map.mp inside
  rw [decide_eq_true_eq, capped_modelName] at same
  obtain ⟨lane, lane_mem, where_, -, ⟨named, -⟩ | ⟨named, own, unknown⟩⟩ := mem_added member
  · exact clear.free plain here lane lane_mem (same.trans named)
  · exact (clear.models lane lane_mem where_ own unknown).2 plain here (same.trans named)

theorem filter_served (clear : Clear t base) (member : e ∈ added v t base) :
    (served v t base).filter (fun other => other.modelName = e.modelName) = [e] := by
  rw [served_eq, List.filter_append, base_free clear member, List.nil_append]
  have once := (nodup_added (v := v) clear)
  obtain ⟨front, back, split⟩ := List.append_of_mem member
  rw [split, List.map_append, List.map_cons] at once
  obtain ⟨-, later, apart⟩ := List.nodup_append.mp once
  have front_free : front.filter (fun other => other.modelName = e.modelName) = [] :=
    List.filter_eq_nil_iff.mpr fun other inside same =>
      apart _ (List.mem_map_of_mem inside) _ List.mem_cons_self (of_decide_eq_true same)
  have back_free : back.filter (fun other => other.modelName = e.modelName) = [] :=
    List.filter_eq_nil_iff.mpr fun other inside same =>
      (List.nodup_cons.mp later).1 (of_decide_eq_true same ▸ List.mem_map_of_mem inside)
  rw [split, List.filter_append, front_free, List.filter_cons, if_pos (decide_eq_true rfl), back_free]
  rfl

theorem serves_of_clear (clear : Clear t base) : Serves v t base where
  kept := by
    rw [take_served, List.forall₂_map_right_iff]
    exact List.forall₂_same.mpr fun e _ => extends_capped
  routed := by
    intro lane member where_ routes
    obtain ⟨e, inside, named⟩ := own_mem_added (v := v) member routes
    have one := filter_served clear inside
    rw [named] at one
    rw [drop_served]
    refine ⟨e, inside, one, ?_, lookup_aliases_of_one member one⟩
    obtain ⟨l, l_mem, other, target, ⟨named', -, reaches⟩ | ⟨named', own, unknown⟩⟩ := mem_added inside
    · rw [named', Option.some.injEq] at named
      obtain rfl := laneAlias_injective named
      rw [routes.1, Option.some.injEq] at target
      rwa [target]
    · rw [named', Option.some.injEq] at named
      exact absurd named ((clear.models l l_mem other own unknown).1 lane member)
  unrouted := by
    intro lane member none_
    refine (lookup_aliases member).mpr fun e inside named => ?_
    rw [served_eq] at inside
    rcases List.mem_append.mp inside with old | new
    · obtain ⟨plain, here, rfl⟩ := List.mem_map.mp old
      exact clear.free plain here lane member (capped_modelName.symm.trans named)
    · obtain ⟨l, l_mem, where_, target, ⟨named', routes, -⟩ | ⟨named', own, unknown⟩⟩ := mem_added new
      · rw [named', Option.some.injEq] at named
        obtain rfl := laneAlias_injective named
        exact none_ where_ routes
      · rw [named', Option.some.injEq] at named
        exact (clear.models l l_mem where_ own unknown).1 lane member named
  once := by
    intro e member
    rw [drop_served] at member
    rw [List.countP_eq_length_filter, filter_served clear member]
    rfl

/-- The entry of a model that is not listed stands before that of its lane. -/
theorem models_serveLane (own : Own t lane where_) (unknown : b.lookup (Text.lower where_.model) = none) :
    (serveLane v b lane (t lane)).1.map Switching.Entry.modelName =
      [some where_.model, some (laneAlias lane)] := by
  rw [own.1]
  simp only [serveLane, if_neg own.2, unknown]
  rfl

theorem clear_of_serves (serves : Serves v t base) : Clear t base where
  free := by
    intro e inside lane member named
    have old : capped v e ∈ base.map (capped v) := List.mem_map_of_mem inside
    have named : (capped v e).modelName = some (laneAlias lane) := capped_modelName.trans named
    have here : capped v e ∈ served v t base := served_eq ▸ List.mem_append_left _ old
    by_cases routes : ∃ where_, Routes t base lane where_
    · obtain ⟨where_, routes⟩ := routes
      obtain ⟨own, new, -⟩ := serves.routed lane member where_ routes
      obtain ⟨own', new', named'⟩ := own_mem_added (v := v) member routes
      have one := serves.once own' (drop_served ▸ new')
      rw [served_eq, List.countP_append] at one
      have first : 0 < (base.map (capped v)).countP fun other => other.modelName = own'.modelName :=
        List.countP_pos_iff.mpr ⟨_, old, decide_eq_true (named.trans named'.symm)⟩
      have second : 0 < (added v t base).countP fun other => other.modelName = own'.modelName :=
        List.countP_pos_iff.mpr ⟨_, new', decide_eq_true rfl⟩
      omega
    · have none_ := serves.unrouted lane member fun where_ here => routes ⟨where_, here⟩
      exact (lookup_aliases member).mp none_ _ here named
  models := by
    intro lane member where_ own unlisted
    obtain ⟨front, back, split⟩ := List.append_of_mem member
    have unknown : (listed v t front (byName base)).lookup (Text.lower where_.model) = none := by
      by_contra known
      exact unlisted ((listed_iff split).mp known)
    -- The names of what is added, about this lane.
    have names : (added v t base).map Switching.Entry.modelName =
        (serve v t front (byName base)).map Switching.Entry.modelName ++
          (some where_.model :: some (laneAlias lane) ::
            (serve v t back (listed v t (front ++ [lane]) (byName base))).map Switching.Entry.modelName) := by
      rw [added, List.map_map, split, serve_append, serve, List.map_append, List.map_append,
        listed_append]
      have plain : Switching.Entry.modelName ∘ capped v = Switching.Entry.modelName :=
        funext fun e => capped_modelName
      rw [plain, models_serveLane own unknown]
      rfl
    have once : ∀ name ∈ (added v t base).map Switching.Entry.modelName,
        (base.map Switching.Entry.modelName).countP (fun other => other = name) +
          ((added v t base).map Switching.Entry.modelName).countP (fun other => other = name) = 1 := by
      intro name inside
      obtain ⟨e, here, rfl⟩ := List.mem_map.mp inside
      have one := serves.once e (drop_served ▸ here)
      rw [served_eq, List.countP_append, List.countP_map] at one
      rw [List.countP_map, List.countP_map]
      simpa [Function.comp_def] using one
    have model : some where_.model ∈ (added v t base).map Switching.Entry.modelName := by
      rw [names]
      exact List.mem_append_right _ List.mem_cons_self
    refine ⟨fun l l_mem same => ?_, fun e inside named => ?_⟩
    · by_cases routes : ∃ other, Routes t base l other
      · obtain ⟨other, routes⟩ := routes
        have own_name : l = lane ∨
            some where_.model ∈ (serve v t front (byName base)).map Switching.Entry.modelName ∨
            some where_.model ∈ (serve v t back
              (listed v t (front ++ [lane]) (byName base))).map Switching.Entry.modelName := by
          rw [split] at l_mem
          rw [same]
          rcases List.mem_append.mp l_mem with first | rest
          · have split : TEXT_LANES = [] ++ front ++ (lane :: back) := split
            obtain ⟨e, here, named⟩ := own_mem_serve (v := v) split first routes
            exact .inr (.inl (List.mem_map.mpr ⟨e, here, named⟩))
          · rcases List.mem_cons.mp rest with here | last
            · exact .inl here
            · have split : TEXT_LANES = (front ++ [lane]) ++ back ++ [] := by
                rw [split]
                simp
              obtain ⟨e, here, named⟩ := own_mem_serve (v := v) split last routes
              exact .inr (.inr (List.mem_map.mpr ⟨e, here, named⟩))
        let q (other : Option String) : Bool := other = some where_.model
        have here : q (some where_.model) = true := decide_eq_true rfl
        have one := once _ model
        change _ + List.countP q _ = 1 at one
        rw [names, List.countP_append, List.countP_cons_of_pos here, List.countP_cons] at one
        rcases own_name with rfl | first | last
        · have own_here : q (some (laneAlias l)) = true := decide_eq_true (congrArg some same.symm)
          rw [if_pos own_here] at one
          omega
        · have more := List.countP_pos_iff.mpr ⟨_, first, here⟩
          omega
        · have more := List.countP_pos_iff.mpr ⟨_, last, here⟩
          omega
      · have none_ := serves.unrouted l l_mem fun other here => routes ⟨other, here⟩
        obtain ⟨e, here, named⟩ := List.mem_map.mp model
        refine (lookup_aliases l_mem).mp none_ e ?_ (named.trans (congrArg some same))
        exact served_eq ▸ List.mem_append_right _ here
    · have one := once _ model
      have first : 0 < (base.map Switching.Entry.modelName).countP
          (fun other => other = some where_.model) :=
        List.countP_pos_iff.mpr ⟨_, List.mem_map_of_mem inside, decide_eq_true named⟩
      have second : 0 < ((added v t base).map Switching.Entry.modelName).countP
          (fun other => other = some where_.model) :=
        List.countP_pos_iff.mpr ⟨_, model, decide_eq_true rfl⟩
      omega

/-- The base config and the lanes share no name but where a base entry, or a model that is added, has the
name of a lane's entry, or a model that is added that of a base entry. -/
theorem served_iff (v : Values ν) (w : Setting) (base : Config ν) (defaults : Dict String) :
    Serves v (target v w base defaults) base ↔ Clear (target v w base defaults) base :=
  ⟨clear_of_serves, serves_of_clear⟩

/-! ## A base config with a lane's name -/

def texts : Values String where
  text s := s
  number n := toString n
  str s := s

/-- No variable is set and nothing is fetched. -/
def fresh : Setting where
  environ := ∅
  config := []
  fetched _ := none
  hub_stem _ := none
  refusal _ := ""

def ownAlias : Config String :=
  [⟨some "local-mid", some (.ofItems [("model", "openai/mid"), ("api_base", "http://127.0.0.1:8081/v1")])⟩,
    ⟨some "sohot-code", some (.ofItems [("model", "openai/mid"), ("api_base", "http://127.0.0.1:8082/v1")])⟩]

def midAdopted : Dict String :=
  .ofItems [("code", "local-mid")]

/-- The name `sohot-code` is served by both entries. -/
theorem alias_served_twice :
    ¬ Serves texts (target texts fresh ownAlias midAdopted) ownAlias := by
  intro serves
  have clear := clear_of_serves serves
  exact clear.free _ (List.mem_cons_of_mem _ List.mem_cons_self) "code" (by decide) rfl

end LocalHarness.Gateway.Served
