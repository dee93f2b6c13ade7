import Mathlib.Data.List.Nodup
import Telemetry.Command
import Telemetry.Proofs.Config.Settings

/-!
Which value a setting has: that of the command line, else that of the environment, else that of the
file, else the default.

A layer of the environment or of a file gives exactly the values that its texts denote
(`gives_ofEnvironment`, `gives_ofFile`), provided that each of them denotes one. What the two of
them make of the defaults has to be valid already, before the settings of the command line take
their places; then the result has to be valid as well (`Flags.configure_eq`).
-/

set_option autoImplicit false

namespace Telemetry

open Fallible (bind_eq_ok mapError_eq_ok)
open Layer (Environment)

/-! ## The environment

Each variable is read in the way of its setting. What the variables denote is stated without the
order in which they are read. -/

/-- Whether each variable that is set denotes a value of its setting. -/
def WellFormedVariables (env : Environment) : Prop :=
  ∀ (s : Setting) (text : String), env s.variableName = some text → (s.ofText? text).isSome = true

/-- The values that variables denote. -/
def variableValues (env : Environment) : Overlay := fun s => (env s.variableName).bind s.ofText?

/-- Where something can be read of all that is given, it is what is read. -/
theorem map_eq_map_some_bind {α β : Type} {read? : α → Option β} {given : Option α}
    (h : ∀ a, given = some a → (read? a).isSome = true) :
    given.map read? = (given.bind read?).map some := by
  cases given with
  | none => rfl
  | some a =>
    obtain ⟨b, hb⟩ := Option.isSome_iff_exists.1 (h a rfl)
    simp [hb]

/-- A variable for a flag is read, if its text is one. -/
theorem variableFlag_eq {env : Environment} {name : String}
    (h : ∀ text, env name = some text → (Setting.flag? text).isSome = true) :
    Layer.variableFlag env name = .ok ((env name).bind Setting.flag?) := by
  rw [Layer.variableFlag]
  cases hname : env name with
  | none => rfl
  | some text =>
    obtain ⟨b, hb⟩ := Option.isSome_iff_exists.1 (h text hname)
    rw [Option.bind_some, hb]
    rw [Setting.flag?.eq_def] at hb
    split at hb
    next => exact congrArg Except.ok hb
    next => exact congrArg Except.ok hb
    next => cases hb

/-- A variable for a number is read if its text is one; a text that is none is an error. -/
theorem variableCount_eq {env : Environment} {limit : Nat} {name : String}
    (h : ∀ text, env name = some text → (Setting.count? limit text).isSome = true) :
    Layer.variableCount env limit name = .ok ((env name).bind (Setting.count? limit)) := by
  rw [Layer.variableCount]
  cases hname : env name with
  | none => rfl
  | some text =>
    obtain ⟨n, hn⟩ := Option.isSome_iff_exists.1 (h text hname)
    simp only [Option.bind_some, hn, Fallible.toOption_eq_some.1 hn]

/-- Where all variables are well-formed, their layer gives the values that they denote. -/
theorem gives_ofEnvironment {env : Environment} (h : WellFormedVariables env) :
    ∃ layer, Layer.ofEnvironment env = .ok layer ∧ layer.Gives (variableValues env) := by
  -- texts are taken as they are; flags and numbers are read, and well-formed variables can be
  have hcount {α : Type} {name : String} {limit : Nat} {f : Nat → α}
      (hname : ∀ text, env name = some text →
        ((Setting.count? limit text).map f).isSome = true) :
      Layer.variableCount env limit name = .ok ((env name).bind (Setting.count? limit)) :=
    variableCount_eq fun text htext => Option.isSome_map.symm.trans (hname text htext)
  have hgrpc : Layer.variableFlag env "TELEMORPH_GRPC_ENABLED" = _ :=
    variableFlag_eq (h .grpcEnabled)
  have hhttp : Layer.variableFlag env "TELEMORPH_HTTP_ENABLED" = _ :=
    variableFlag_eq (h .httpEnabled)
  have hdays : Layer.variableCount env _ "TELEMORPH_RETENTION_DAYS" = _ :=
    hcount (h .retentionDays)
  have hbatch : Layer.variableCount env _ "TELEMORPH_WRITE_BATCH_SIZE" = _ :=
    hcount (h .writeBatchSize)
  have hcapacity : Layer.variableCount env _ "TELEMORPH_WRITE_CHANNEL_CAPACITY" = _ :=
    hcount (h .writeChannelCapacity)
  have hlayer := Layer.ofEnvironment.eq_def env
  rw [hgrpc, hhttp, hdays, hbatch, hcapacity] at hlayer
  refine ⟨_, hlayer.trans rfl, fun s => ?_⟩
  have hs := map_eq_map_some_bind (h s)
  -- what the layer gives for each setting is its variable, read
  cases s with
  | dbPath => exact hs
  | otlpGrpcAddr => exact hs
  | otlpHttpAddr => exact hs
  | apiAddr => exact hs
  | grpcEnabled => rfl
  | httpEnabled => rfl
  | retentionDays => exact congrArg (Option.map some) Option.map_bind
  | writeBatchSize => exact congrArg (Option.map some) Option.map_bind
  | writeChannelCapacity => exact congrArg (Option.map some) Option.map_bind
  | retentionInterval => exact hs
  | queryTimeout => exact hs
  | logFormat => exact hs

/-! ## Files -/

/-- The names in a file. -/
def boundNames (bindings : List (String × Toml.Value)) : List String := bindings.map Prod.fst

/-- No name is bound twice, if none was before. -/
theorem nodup_boundNames_of_bindings {fuel : Nat} {found bindings : List (String × Toml.Value)}
    {cs : List Char} (h : Toml.bindings fuel found cs = .ok bindings)
    (hfound : (boundNames found).Nodup) : (boundNames bindings).Nodup := by
  have hreverse : (boundNames found.reverse).Nodup := by
    rw [boundNames, List.map_reverse]
    exact List.nodup_reverse.2 hfound
  -- one line after another; what has been found is kept in reverse until the end
  induction fuel generalizing found cs with
  | zero => exact Except.ok.inj h ▸ hreverse
  | succ fuel ih =>
    rw [Toml.bindings] at h
    split at h
    next => exact Except.ok.inj h ▸ hreverse
    next =>
      split at h
      next => exact ih h hfound hreverse
      next =>
        split at h
        next => cases h
        next b rest _ =>
          split at h
          next => cases h
          next hnew =>
            -- a name that is bound already is refused, so a new line has a new one
            have hcons : (boundNames (b :: found)).Nodup := by
              refine List.nodup_cons.2 ⟨fun hmem => hnew ?_, hfound⟩
              obtain ⟨f, hf, heq⟩ := List.mem_map.1 hmem
              exact List.any_eq_true.2 ⟨f, hf, beq_iff_eq.2 heq⟩
            refine ih h hcons ?_
            rw [boundNames, List.map_reverse]
            exact List.nodup_reverse.2 hcons

/-- A file binds no name twice. -/
theorem nodup_boundNames_of_read {cs : List Char} {bindings : List (String × Toml.Value)}
    (h : Toml.read cs = .ok bindings) : (boundNames bindings).Nodup :=
  nodup_boundNames_of_bindings h List.nodup_nil

/-- Whether each binding is one of a setting, to a value of it. -/
def WellFormedBindings (bindings : List (String × Toml.Value)) : Prop :=
  ∀ b ∈ bindings, ∃ s : Setting, s.key = b.1 ∧ (Setting.ofToml? b.2 s).isSome = true

/-- The values that a file binds. -/
def boundValues (bindings : List (String × Toml.Value)) : Overlay := fun s =>
  (bindings.lookup s.key).bind fun v => Setting.ofToml? v s

section Binding

variable {v : Toml.Value} {name : String}

/-- A text that is bound in a file is read as it is. -/
theorem text_of_boundText {t : String} (h : Setting.boundText? v = some t) :
    Layer.text name v = .ok t := by
  cases v with
  | string s => exact congrArg Except.ok (Option.some.inj h)
  | integer n => cases h
  | bool b => cases h

theorem flag_of_boundFlag {b : Bool} (h : Setting.boundFlag? v = some b) :
    Layer.flag name v = .ok b := by
  cases v with
  | string s => cases h
  | integer n => cases h
  | bool b => exact congrArg Except.ok (Option.some.inj h)

theorem count_of_boundCount {limit n : Nat} (h : Setting.boundCount? limit v = some n) :
    Layer.count limit name v = .ok n := by
  cases v with
  | string s => cases h
  | bool b => cases h
  | integer k =>
    rw [Setting.boundCount?] at h
    rw [Layer.count]
    split at h
    next hk => rw [if_pos hk, Option.some.inj h]
    next => cases h

end Binding

section Values

variable {s t : Setting} {v : Toml.Value} {bindings : List (String × Toml.Value)}

/-- The first binding of a key is the one that counts. -/
theorem boundValues_cons_self : boundValues ((s.key, v) :: bindings) s = Setting.ofToml? v s := by
  simp [boundValues]

theorem boundValues_cons_of_ne (h : t ≠ s) :
    boundValues ((s.key, v) :: bindings) t = boundValues bindings t := by
  have hkey : (t.key == s.key) = false := beq_eq_false_iff_ne.2 (Setting.key_injective.ne h)
  simp [boundValues, List.lookup_cons, hkey]

/-- A key that is not bound has no value. -/
theorem boundValues_eq_none (h : s.key ∉ boundNames bindings) : boundValues bindings s = none := by
  have hlookup : bindings.lookup s.key = none := by
    refine List.lookup_eq_none_iff.2 fun b hb => ?_
    exact bne_iff_ne.2 fun hkey => h (List.mem_map.2 ⟨b, hb, hkey.symm⟩)
  rw [boundValues, hlookup, Option.bind_none]

end Values

/-- A binding of a setting adds its value to a layer, and nothing else. -/
theorem exists_bind {s : Setting} {v : Toml.Value} {x : s.Value}
    (h : Setting.ofToml? v s = some x) (layer : Layer) :
    ∃ layer', layer.bind s.key v = .ok layer' ∧
      layer'.given = Function.update layer.given s (some (some x)) := by
  have hbind := Layer.bind.eq_def layer s.key v
  -- four kinds of setting: texts, flags, numbers, and texts that are read further
  cases s
  case dbPath | otlpGrpcAddr | otlpHttpAddr | apiAddr =>
    simp only [Setting.key, text_of_boundText h] at hbind
    exact ⟨_, hbind, funext fun t => by cases t <;> rfl⟩
  case grpcEnabled | httpEnabled =>
    simp only [Setting.key, flag_of_boundFlag h] at hbind
    exact ⟨_, hbind, funext fun t => by cases t <;> rfl⟩
  case retentionDays | writeBatchSize | writeChannelCapacity =>
    obtain ⟨n, hn, rfl⟩ := Option.map_eq_some_iff.1 h
    simp only [Setting.key, count_of_boundCount hn] at hbind
    exact ⟨_, hbind, funext fun t => by cases t <;> rfl⟩
  case retentionInterval | queryTimeout | logFormat =>
    obtain ⟨text, htext, hx⟩ := Option.bind_eq_some_iff.1 h
    simp only [Setting.key, text_of_boundText htext] at hbind
    refine ⟨_, hbind, funext fun t => ?_⟩
    rw [← hx]
    cases t <;> rfl

/-- Bindings of different settings add all of their values. -/
theorem exists_foldlM_bind {bindings : List (String × Toml.Value)} (h : WellFormedBindings bindings)
    (hnodup : (boundNames bindings).Nodup) (layer : Layer) :
    ∃ layer', bindings.foldlM (fun layer b => layer.bind b.1 b.2) layer = .ok layer' ∧
      ∀ s, layer'.given s = ((boundValues bindings s).map some <|> layer.given s) := by
  -- on the bindings, for any layer under them; their names are different
  induction bindings generalizing layer with
  | nil => exact ⟨layer, rfl, fun s => rfl⟩
  | cons b bindings ih =>
    obtain ⟨name, v⟩ := b
    obtain ⟨s, rfl, hs⟩ := h _ List.mem_cons_self
    obtain ⟨x, hx⟩ := Option.isSome_iff_exists.1 hs
    obtain ⟨hnew, hrest⟩ := List.nodup_cons.1 hnodup
    obtain ⟨next, hbind, hgiven⟩ := exists_bind hx layer
    obtain ⟨layer', hfold, hvalues⟩ := ih (fun b hb => h b (List.mem_cons_of_mem _ hb)) hrest next
    refine ⟨layer', ?_, fun t => ?_⟩
    · rw [List.foldlM_cons, hbind]
      exact hfold
    · rw [hvalues, hgiven]
      by_cases hts : t = s
      · -- no later binding has this name, so the value stays
        subst hts
        rw [boundValues_eq_none hnew, Function.update_self, boundValues_cons_self, hx]
        rfl
      · rw [Function.update_of_ne hts, boundValues_cons_of_ne hts]

/-- Where all bindings are well-formed, the layer of a file gives the values that it binds. -/
theorem gives_ofFile {contents : String} {bindings : List (String × Toml.Value)}
    (hread : Toml.read contents.toList = .ok bindings) (h : WellFormedBindings bindings) :
    ∃ layer, Layer.ofFile contents = .ok layer ∧ layer.Gives (boundValues bindings) := by
  obtain ⟨layer, hfold, hvalues⟩ := exists_foldlM_bind h (nodup_boundNames_of_read hread) {}
  refine ⟨layer, ?_, fun s => ?_⟩
  · rw [Layer.ofFile, hread]
    exact hfold
  · have hempty : Layer.given {} s = none := by cases s <;> rfl
    rw [hvalues, hempty, Option.orElse_eq_orElse]
    cases boundValues bindings s <;> rfl

/-! ## Loading

Layers are laid one over another, setting by setting, and only the result is checked. -/

/-- Whether the file of settings is read and binds some values. It is the one that is asked for, and
then it is there, or else it need not be there and then binds nothing. -/
inductive Config.Binds (files : Config.Files) (env : Environment) (explicit : Option String) :
    List (String × Toml.Value) → Prop
  | file {contents : String} {bindings : List (String × Toml.Value)} :
    files (explicit.getD (Config.defaultPath env)) = some (.ok contents) →
    Toml.read contents.toList = .ok bindings → Binds files env explicit bindings
  | absent : explicit = none → files (Config.defaultPath env) = none → Binds files env explicit []

section Load

variable {files : Config.Files} {env : Environment} {explicit : Option String}
  {bindings : List (String × Toml.Value)}

/-- What is loaded is the defaults under the file and the environment, if that is valid. -/
theorem Config.load_eq (hfile : Config.Binds files env explicit bindings)
    (hbindings : WellFormedBindings bindings) (henv : WellFormedVariables env) :
    Config.load files env explicit = do
      (effective [variableValues env, boundValues bindings]).validate
      return effective [variableValues env, boundValues bindings] := by
  obtain ⟨upper, hupper, hgives⟩ := gives_ofEnvironment henv
  rw [Config.load, hupper, effective_cons, effective_cons, effective_nil]
  -- with a file, its bindings lie between the defaults and the environment
  cases hfile with
  | file hcontents hread =>
    obtain ⟨layer, hlayer, hbinds⟩ := gives_ofFile hread hbindings
    have hfound : Config.fileLayer files (explicit.getD (Config.defaultPath env)) =
        .ok (some layer) := by
      rw [Config.fileLayer, hcontents]
      simp only [hlayer]
    rw [hfound]
    show (layer.apply "config file" {} >>= fun c => upper.apply "environment" c >>= _) = _
    rw [hbinds.apply]
    show (upper.apply "environment" (({} : Config).under (boundValues bindings)) >>= _) = _
    rw [hgives.apply]
    rfl
  | absent hnone hcontents =>
    -- nothing is bound, so the defaults are under the environment alone
    have hfound : Config.fileLayer files (explicit.getD (Config.defaultPath env)) = .ok none := by
      rw [hnone, Option.getD_none, Config.fileLayer, hcontents]
    rw [hfound, hnone]
    show (upper.apply "environment" (({} : Config).under (boundValues [])) >>= _) = _
    rw [hgives.apply]
    rfl

end Load

/-! ## The command line

Flags come after the check: they replace settings of a configuration that has already been
accepted. -/

/-- The values that arguments give. -/
def Flags.given (f : Flags) : Overlay
  | .dbPath => f.dbPath
  | .otlpGrpcAddr => f.otlpGrpcAddr
  | .otlpHttpAddr => f.otlpHttpAddr
  | .apiAddr => f.apiAddr
  | .retentionDays => f.retentionDays
  | .logFormat => f.logFormat
  | .grpcEnabled | .httpEnabled | .retentionInterval | .writeBatchSize | .writeChannelCapacity
  | .queryTimeout => none

/-- Flags are the overlay over everything else. -/
theorem Flags.apply_eq (f : Flags) (c : Config) : f.apply c = c.under f.given := rfl

/-- A configuration is valid exactly if none of its four positive settings is zero. -/
theorem Config.validate_eq_ok_iff (c : Config) :
    c.validate = .ok () ↔ c.retentionDays ≠ 0 ∧ c.writeBatchSize ≠ 0 ∧
      c.writeChannelCapacity ≠ 0 ∧ c.retentionInterval.nanos ≠ 0 := by
  rw [Config.validate]
  by_cases hdays : c.retentionDays = 0
  · rw [if_pos hdays]
    exact iff_of_false nofun fun h => h.1 hdays
  rw [if_neg hdays]
  by_cases hbatch : c.writeBatchSize = 0
  · rw [if_pos hbatch]
    exact iff_of_false nofun fun h => h.2.1 hbatch
  rw [if_neg hbatch]
  by_cases hcapacity : c.writeChannelCapacity = 0
  · rw [if_pos hcapacity]
    exact iff_of_false nofun fun h => h.2.2.1 hcapacity
  rw [if_neg hcapacity]
  by_cases hinterval : c.retentionInterval.nanos = 0
  · rw [if_pos hinterval]
    exact iff_of_false nofun fun h => h.2.2.2 hinterval
  rw [if_neg hinterval]
  exact iff_of_true rfl ⟨hdays, hbatch, hcapacity, hinterval⟩

/-- A configuration that is valid under the command line is valid without it exactly if its days are
not zero, since the command line gives no other value that is validated. -/
theorem Config.validate_of_under {c : Config} {f : Flags}
    (h : (c.under f.given).validate = .ok ()) : c.validate = .ok () ↔ c.retentionDays ≠ 0 := by
  obtain ⟨-, hbatch, hcapacity, hinterval⟩ := (Config.validate_eq_ok_iff _).1 h
  rw [Config.validate_eq_ok_iff]
  exact ⟨fun h => h.1, fun hdays => ⟨hdays, hbatch, hcapacity, hinterval⟩⟩

section Configure

variable {f : Flags} {files : Config.Files} {env : Environment}
  {bindings : List (String × Toml.Value)}

/-- What is loaded and what the command line makes of it are validated one after the other. -/
theorem Flags.configure_eq (hfile : Config.Binds files env f.config bindings)
    (hbindings : WellFormedBindings bindings) (henv : WellFormedVariables env) :
    f.configure files env = do
      (effective [variableValues env, boundValues bindings]).validate.mapError .notLoaded
      (effective [f.given, variableValues env, boundValues bindings]).validate.mapError .invalid
      return effective [f.given, variableValues env, boundValues bindings] := by
  rw [Flags.configure, Config.load_eq hfile hbindings henv, effective_cons f.given,
    ← Flags.apply_eq]
  cases (effective [variableValues env, boundValues bindings]).validate <;> rfl

end Configure

/-- **The precedence of settings.** Where all that is given is well-formed, a service gets past its
configuration exactly if the configuration that is in effect is valid and the days of retention are
not zero without the command line either. In the configuration it gets, each of the twelve settings
has the value of the command line, else that of its variable, else that of the file, else the
default. -/
theorem configure_eq_ok_iff (f : Flags) (files : Config.Files) (env : Environment)
    (bindings : List (String × Toml.Value)) (hfile : Config.Binds files env f.config bindings)
    (hbindings : WellFormedBindings bindings) (henv : WellFormedVariables env) (c : Config) :
    f.configure files env = .ok c ↔
      (∀ s : Setting, c.get s =
        (f.given s <|> variableValues env s <|> boundValues bindings s).getD
          (({} : Config).get s)) ∧
      c.validate = .ok () ∧
      (variableValues env .retentionDays <|> boundValues bindings .retentionDays).getD
        ({} : Config).retentionDays ≠ 0 := by
  -- flags first, then the environment, then the file
  have hfirst (s : Setting) :
      ([f.given, variableValues env, boundValues bindings].findSome? fun o => o s) =
        (f.given s <|> variableValues env s <|> boundValues bindings s) := by
    rw [findSome?_cons_overlay, findSome?_cons_overlay, findSome?_singleton_overlay]
  have hvalues : c = effective [f.given, variableValues env, boundValues bindings] ↔
      ∀ s : Setting, c.get s =
        (f.given s <|> variableValues env s <|> boundValues bindings s).getD
          (({} : Config).get s) := by
    rw [effective, Config.eq_ofValues_iff]
    simp only [hfirst]
  have hdays : (effective [variableValues env, boundValues bindings]).retentionDays =
      (variableValues env .retentionDays <|> boundValues bindings .retentionDays).getD
        ({} : Config).retentionDays := by
    refine (Config.get_ofValues _ .retentionDays).trans ?_
    rw [findSome?_cons_overlay, findSome?_singleton_overlay]
    rfl
  have hunder := effective_cons f.given [variableValues env, boundValues bindings]
  rw [Flags.configure_eq hfile hbindings henv, ← hvalues, ← hdays]
  -- what is loaded is validated before the flags are laid over it, so the days of retention have
  -- to be right without them too
  constructor
  · intro h
    obtain ⟨_, hloaded, h⟩ := bind_eq_ok h
    obtain ⟨_, hvalid, h⟩ := bind_eq_ok h
    obtain rfl := Except.ok.inj h
    replace hvalid := mapError_eq_ok hvalid
    rw [hunder] at hvalid
    exact ⟨rfl, hunder ▸ hvalid, (Config.validate_of_under hvalid).1 (mapError_eq_ok hloaded)⟩
  · rintro ⟨rfl, hvalid, hpositive⟩
    have hloaded := (Config.validate_of_under (hunder ▸ hvalid)).2 hpositive
    rw [hloaded, hvalid]
    rfl

/-- The text of a file without days of retention, with a timeout. -/
def zeroDaysText : String := "retention_days = 0\nquery_timeout = \"5s\"\n"

/-- What it binds. -/
def zeroDays : List (String × Toml.Value) :=
  [("retention_days", .integer 0), ("query_timeout", .string "5s")]

/-- A file with no days of retention. -/
theorem binds_zeroDays (env : Environment) :
    Config.Binds (fun _ => some (.ok zeroDaysText)) env none zeroDays :=
  .file rfl (by decide +kernel)

/-- Its binding is well-formed: zero is a number. -/
theorem wellFormedBindings_zeroDays : WellFormedBindings zeroDays := by
  refine List.forall_mem_cons.2 ⟨⟨.retentionDays, rfl, rfl⟩, ?_⟩
  exact List.forall_mem_singleton.2 ⟨.queryTimeout, rfl, by decide +kernel⟩

/-- Variables that give a week of retention. -/
def weekVariables : Environment := fun name =>
  if name = Setting.retentionDays.variableName then some "7" else none

/-- So is a variable with seven days. -/
theorem wellFormedVariables_weekVariables : WellFormedVariables weekVariables := by
  intro s text h
  rw [weekVariables] at h
  split at h
  next hname =>
    obtain rfl : s = .retentionDays := Setting.variableName_injective hname
    obtain rfl := Option.some.inj h
    rfl
  next => cases h

/-- The theorem for this file under that variable and a flag: the variable hides the zero of the
file. -/
theorem configure_eq_ok_of_weekVariables :
    Config.Binds (fun _ => some (.ok zeroDaysText)) weekVariables none zeroDays ∧
      WellFormedBindings zeroDays ∧ WellFormedVariables weekVariables ∧
      Flags.configure { logFormat := some .json } (fun _ => some (.ok zeroDaysText))
        weekVariables =
          .ok { retentionDays := 7, queryTimeout := .ofSeconds 5, logFormat := .json } := by
  have hfile := binds_zeroDays weekVariables
  refine ⟨hfile, wellFormedBindings_zeroDays, wellFormedVariables_weekVariables, ?_⟩
  refine (configure_eq_ok_iff { logFormat := some .json } _ _ _ hfile wellFormedBindings_zeroDays
    wellFormedVariables_weekVariables _).2 ⟨fun s => ?_, rfl, ?_⟩
  · cases s <;> rfl
  · decide

/-- So a valid number of days on the command line does not hide one of the file that is not. -/
theorem flag_does_not_hide_zero_days :
    ¬ ∀ (f : Flags) (files : Config.Files) (env : Environment)
        (bindings : List (String × Toml.Value)),
      Config.Binds files env f.config bindings → WellFormedBindings bindings →
      WellFormedVariables env →
      ((∃ c, f.configure files env = .ok c) ↔
        (effective [f.given, variableValues env, boundValues bindings]).validate = .ok ()) := by
  intro h
  have hfile := binds_zeroDays fun _ => none
  have hvariables : WellFormedVariables fun _ => none := nofun
  obtain ⟨c, hc⟩ := (h { retentionDays := some 7 } _ _ _ hfile wellFormedBindings_zeroDays
    hvariables).2 rfl
  rw [Flags.configure_eq hfile wellFormedBindings_zeroDays hvariables] at hc
  obtain ⟨_, hloaded, -⟩ := bind_eq_ok hc
  cases mapError_eq_ok hloaded

end Telemetry
