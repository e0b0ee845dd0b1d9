import ClassUnit.CommandLine.Commands
import ClassUnit.Proofs.Proxy.Injection
import ClassUnit.Proofs.Proxy.Layout

/-! # Laying out described proxies

What `proxy` prints follows from the files that it reads: there is a list of what may keep it from
its work (`Obstacle`), and without any of that it prints the layout of the proxy, whose routes the
overrides decide (`proxy_lists`). All the other ways in which making and emitting a proxy can fail
are closed: each member has a route to a callback, and the class is recorded at the latest level. -/

namespace ClassUnit

/-- No level is beyond the latest, at which a proxy is laid out. -/
theorem Level.le_latest (level : Level) : level ≤ .latest := by
  cases level <;> decide

namespace CommandLine
open Json (Value Decoded)
open Proxy (Config File Method Override Member ProxyClass injectedBy overrideFilter)

/-! ## What is read -/

/-- The file has a text, and it decodes to `a`. -/
def Holds (file : File) (decoder : Value → Decoded α) (a : α) : Prop :=
  ∃ text, file.text = .ok text ∧ Json.decode decoder text = .ok a

/-- The configuration in use is that of the named file. If none is named, it is that of the
standard file if this is a regular file, so that there is none if it cannot be read. Otherwise it
is the standard one. -/
inductive InUse (files : String → File) : Option String → Config → Prop
  | named : Holds (files path) Config.ofJson config → InUse files (some path) config
  | standardFile : (files standardConfig).isRegular →
    Holds (files standardConfig) Config.ofJson config → InUse files none config
  | standard : ¬(files standardConfig).isRegular → InUse files none {}

/-- What keeps a proxy from being laid out. -/
inductive Obstacle (files : String → File) (named : Option String) (file : String) : Prop
  | noConfig : (∀ config, ¬InUse files named config) → Obstacle files named file
  | noSuffix : InUse files named config → config.suffix = "" → Obstacle files named file
  | noDescription : (∀ d, ¬Holds (files file) Description.ofJson d) → Obstacle files named file
  | sharedKey : Holds (files file) Description.ofJson d → ¬(d.members.map Method.key).Nodup →
    Obstacle files named file

/-! ## What is printed -/

/-- A member, the position of its callback, and the kind of its route. -/
structure Row where
  method : Method
  callback : Nat
  dispatch : String

/-- A layout as it is printed. -/
structure Listing where
  name : String
  superName : String
  /-- Names and descriptors. -/
  fields : List (String × String)
  rows : List Row

def Listing.text (l : Listing) : String :=
  unlines ((l.name ++ " extends " ++ l.superName) ::
    l.fields.map (fun (name, descriptor) => "  field  " ++ name ++ " " ++ descriptor) ++
    l.rows.map fun row => "  method " ++ row.method.key ++ " " ++ row.dispatch ++
      (" " ++ ProxyClass.fieldName row.callback))

def Listing.json (l : Listing) : Value :=
  .object [
    ("fields", .array (l.fields.map fun (name, descriptor) =>
      .object [("descriptor", .string descriptor), ("name", .string name)])),
    ("methods", .array (l.rows.map fun row =>
      .object [("callback", .integer row.callback), ("descriptor", .string row.method.descriptor),
        ("dispatch", .string row.dispatch), ("name", .string row.method.name)])),
    ("name", .string l.name), ("superName", .string l.superName)]

def Listing.printed (l : Listing) : Format → String
  | .text => l.text
  | .json => unlines [l.json.pretty 0]

/-- The callback and the route that the overrides give a member. -/
inductive Routed (overrides : List Override) (m : Method) : Nat → String → Prop
  | unmatched : (∀ o ∈ overrides, ¬o.Matches m) → Routed overrides m 0 "passThrough"
  | lookup : Override.LastMatch overrides m o → o.action = .lookup bean →
    Routed overrides m 1 "intercepted"
  | replace : Override.LastMatch overrides m o → o.action = .replace replacer →
    Routed overrides m 2 "intercepted"

/-- The listing is that of the described proxy. -/
structure Lists (d : Description) (config : Config) (l : Listing) : Prop where
  name : l.name = d.className ++ config.suffix
  superName : l.superName = d.className
  fields_of_nil : d.overrides = [] → l.fields = [("CALLBACK_0", "Lclassweave/proxy/NoOp;")]
  fields_of_ne_nil : d.overrides ≠ [] → l.fields =
    [("CALLBACK_0", "Lclassweave/proxy/NoOp;"),
      ("CALLBACK_1", "Lclassweave/proxy/MethodInterceptor;"),
      ("CALLBACK_2", "Lclassweave/proxy/MethodInterceptor;")]
  /-- In the order of the description. -/
  members : l.rows.map (·.method) = d.members
  routed : ∀ row ∈ l.rows, Routed d.overrides row.method row.callback row.dispatch

/-! ## The configuration in use -/

theorem Holds.unique {file : File} {decoder : Value → Decoded α} {a b : α}
    (ha : Holds file decoder a) (hb : Holds file decoder b) : a = b := by
  obtain ⟨text, htext, ha⟩ := ha
  obtain ⟨text', htext', hb⟩ := hb
  cases htext.symm.trans htext'
  exact Except.ok.inj (ha.symm.trans hb)

/-- At most one configuration is in use. -/
theorem InUse.unique {files : String → File} {named : Option String} {config config' : Config}
    (h : InUse files named config) (h' : InUse files named config') : config = config' := by
  cases h with
  | named h => cases h' with | named h' => exact h.unique h'
  | standardFile hfile h =>
    cases h' with
    | standardFile _ h' => exact h.unique h'
    | standard hno => exact absurd hfile hno
  | standard hno =>
    cases h' with
    | standardFile hfile _ => exact absurd hfile hno
    | standard _ => rfl

theorem ofFile_eq_ok_iff {file : File} {config : Config} :
    Config.ofFile file = .ok config ↔ Holds file Config.ofJson config ∧ config.suffix ≠ "" := by
  rw [Config.ofFile, Holds]
  cases file.text with
  | error fault => simp
  | ok text =>
    simp only [Config.ofText, Except.ok.injEq, exists_eq_left']
    cases Json.decode Config.ofJson text with
    | error failure => simp
    | ok config' =>
      simp only [Except.ok.injEq, String.isEmpty_iff]
      constructor
      · intro h
        split at h
        · cases h
        · obtain rfl := Except.ok.inj h
          exact ⟨rfl, ‹_›⟩
      · rintro ⟨rfl, hsuffix⟩
        rw [if_neg hsuffix]

/-- Loading gives the configuration in use, which must have a suffix. -/
theorem loadConfig_eq_ok_iff {files : String → File} {named : Option String} {config : Config} :
    loadConfig files named = .ok config ↔ InUse files named config ∧ config.suffix ≠ "" := by
  cases named with
  | some path =>
    rw [loadConfig, ofFile_eq_ok_iff]
    refine and_congr_left' ⟨.named, ?_⟩
    rintro ⟨h⟩
    exact h
  | none =>
    rw [loadConfig]
    split
    · next hfile =>
      rw [ofFile_eq_ok_iff]
      refine and_congr_left' ⟨.standardFile hfile, ?_⟩
      rintro (⟨⟨⟩⟩ | ⟨-, h⟩ | hno)
      · exact h
      · exact absurd hfile hno
    · next hno =>
      constructor
      · intro h
        obtain rfl := Except.ok.inj h
        exact ⟨.standard hno, by decide⟩
      · rintro ⟨_ | ⟨hfile, -⟩ | -, -⟩
        · exact absurd hfile hno
        · rfl

/-- A standard file that cannot be read is not passed over. -/
example (complaint : String) : loadConfig (fun _ => .regular (.error complaint)) none =
    .error (.unreadable (.unreadable complaint)) := rfl

/-! ## The proxy of a description -/

namespace Description

variable {d : Description} {config : Config}

theorem target_members (d : Description) : d.target.members = d.members := by
  simp [target, Proxy.Target.ofBodies, absentBody, Function.comp_def]

/-- The route of a member, with or without overrides. -/
def memberOf (d : Description) (m : Method) : Member Unit :=
  ⟨m, injectedBy d.overrides emptyContainer (Override.actionFor d.overrides m),
    some (overrideFilter d.overrides m)⟩

theorem route_enhancer (d : Description) (config : Config) (m : Method) :
    (d.enhancer config).route m = .ok (d.memberOf m) := by
  rw [enhancer, memberOf]
  split
  · next hempty =>
    rw [List.isEmpty_iff.1 hempty]
    rfl
  · have hroute : (Proxy.injection d.target d.overrides emptyContainer).route m = _ :=
      Proxy.route_injection m
    exact hroute

theorem enhancer_target (d : Description) (config : Config) :
    (d.enhancer config).target = d.target := by
  rw [enhancer]
  split <;> rfl

theorem enhancer_config (d : Description) (config : Config) :
    (d.enhancer config).config = config := by
  rw [enhancer]
  split <;> rfl

/-- The proxy that is made of the description. -/
def made (d : Description) (config : Config) : ProxyClass Unit where
  toRoster := .ofMembers (d.members.map d.memberOf)
  name := d.className ++ config.suffix
  target := d.target
  callbacks := (d.enhancer config).callbacks
  config := config

/-- Distinct keys are all that a proxy needs. -/
theorem create_of_nodup (config : Config) (hkeys : (d.members.map Method.key).Nodup) :
    d.create config = .ok (d.made config) := by
  have htarget : (d.enhancer config).target.members = d.members := by
    rw [enhancer_target, target_members]
  rw [← htarget] at hkeys
  obtain ⟨p, hp, hmembers⟩ :=
    Proxy.Enhancer.exists_create_of_routes hkeys fun m _ => d.route_enhancer config m
  obtain ⟨members, -, rfl⟩ := Proxy.Enhancer.create_eq_ok_iff.1 hp
  rw [Proxy.Enhancer.proxyOf, Proxy.Roster.members_ofMembers, htarget] at hmembers
  subst hmembers
  rw [create, hp, Proxy.Enhancer.proxyOf, made, enhancer_target, enhancer_config]
  rfl

/-- No proxy is made of members that share a key. -/
theorem nodup_of_create (h : d.create config = .ok p) : (d.members.map Method.key).Nodup := by
  have hkeys := Proxy.Enhancer.nodup_keys_of_create h
  have hmethods := Proxy.Enhancer.map_method_of_create h
  rw [enhancer_target, target_members] at hmethods
  rwa [← hmethods, List.map_map]

/-- The layout of the proxy, as it is printed. -/
def listing (d : Description) (config : Config) : Listing where
  name := d.className ++ config.suffix
  superName := d.className
  fields := (d.enhancer config).callbacks.zipIdx.map fun (callback, index) =>
    (ProxyClass.fieldName index, callback.fieldDescriptor)
  rows := d.members.map fun m =>
    ⟨m, overrideFilter d.overrides m, (d.memberOf m).dispatch.kind⟩

/-- The route of a member is the one that its last matching override asks for. -/
theorem routed_memberOf (d : Description) (m : Method) :
    Routed d.overrides m (overrideFilter d.overrides m) (d.memberOf m).dispatch.kind := by
  rw [memberOf, overrideFilter, Override.actionFor]
  cases hselect : Override.select d.overrides m with
  | none => exact .unmatched (Override.select_eq_none_iff.1 hselect)
  | some o =>
    have hlast := Override.select_eq_some_iff.1 hselect
    rw [Option.map_some]
    cases haction : o.action with
    | lookup bean => exact .lookup hlast haction
    | replace replacer => exact .replace hlast haction

theorem lists_listing (d : Description) (config : Config) : Lists d config (d.listing config) where
  name := rfl
  superName := rfl
  fields_of_nil h := by
    rw [listing, enhancer, h]
    rfl
  fields_of_ne_nil h := by
    rw [listing, enhancer, if_neg (by simpa using h)]
    rfl
  members := by simp [listing, Function.comp_def]
  routed := by
    intro row hrow
    obtain ⟨m, -, rfl⟩ := List.mem_map.1 hrow
    exact d.routed_memberOf m

end Description

/-! ## Printing -/

namespace Description

theorem layoutText_made (d : Description) (config : Config) :
    layoutText (d.made config) (d.made config).layout = (d.listing config).text := by
  simp only [layoutText, Listing.text, listing, made, ProxyClass.layout,
    Proxy.Roster.members_ofMembers, List.map_map]
  rfl

theorem layoutJson_made (d : Description) (config : Config) :
    layoutJson (d.made config) (d.made config).layout = (d.listing config).json := by
  simp only [layoutJson, Listing.json, listing, made, ProxyClass.layout,
    Proxy.Roster.members_ofMembers, List.map_map]
  rfl

end Description

/-! ## The command -/

theorem mapError_bind_eq_ok_iff {x : Except ε α} {g : ε → ε'} {f : α → Except ε' β} {b : β} :
    (x.mapError g >>= f) = .ok b ↔ ∃ a, x = .ok a ∧ f a = .ok b := by
  cases x with
  | error e => exact iff_of_false nofun nofun
  | ok a => exact ⟨fun h => ⟨a, rfl, h⟩, fun ⟨_, ha, h⟩ => Except.ok.inj ha ▸ h⟩

/-- Once a description is decoded, nothing but a shared key keeps its proxy from being laid out. -/
theorem layout_eq_ok_iff {text : String} {config : Config} {r : ProxyClass Unit × ClassNode} :
    layout text config = .ok r ↔ ∃ d, Json.decode Description.ofJson text = .ok d ∧
      (d.members.map Method.key).Nodup ∧ r = (d.made config, (d.made config).layout) := by
  rw [layout, mapError_bind_eq_ok_iff]
  refine exists_congr fun d => and_congr_right fun _ => ?_
  rw [mapError_bind_eq_ok_iff]
  have hemit := (d.made config).exec_emit (Level.le_latest _)
  constructor
  · rintro ⟨p, hp, h⟩
    have hkeys := Description.nodup_of_create hp
    cases hp.symm.trans (Description.create_of_nodup config hkeys)
    rw [hemit] at h
    exact ⟨hkeys, (Except.ok.inj h).symm⟩
  · rintro ⟨hkeys, rfl⟩
    refine ⟨_, Description.create_of_nodup config hkeys, ?_⟩
    rw [hemit]
    rfl

/-- The proxy that `proxy` prints, with its class. -/
def laidOut (files : String → File) (named : Option String) (file : String) :
    Except String (ProxyClass Unit × ClassNode) := do
  let config ← (loadConfig files named).mapError (·.message)
  let description ← (files file).text.mapError (·.message)
  layout description config

/-- What is laid out is the proxy of the described members under the configuration in use. -/
theorem laidOut_eq_ok_iff {files : String → File} {named : Option String} {file : String}
    {r : ProxyClass Unit × ClassNode} :
    laidOut files named file = .ok r ↔ ∃ config d, InUse files named config ∧ config.suffix ≠ "" ∧
      Holds (files file) Description.ofJson d ∧ (d.members.map Method.key).Nodup ∧
        r = (d.made config, (d.made config).layout) := by
  simp only [laidOut, mapError_bind_eq_ok_iff, loadConfig_eq_ok_iff, layout_eq_ok_iff, Holds]
  constructor
  · rintro ⟨config, ⟨huse, hsuffix⟩, text, htext, d, hd, hkeys, rfl⟩
    exact ⟨config, d, huse, hsuffix, ⟨text, htext, hd⟩, hkeys, rfl⟩
  · rintro ⟨config, d, huse, hsuffix, ⟨text, htext, hd⟩, hkeys, rfl⟩
    exact ⟨config, ⟨huse, hsuffix⟩, text, htext, d, hd, hkeys, rfl⟩

theorem not_obstacle_iff {files : String → File} {named : Option String} {file : String} :
    ¬Obstacle files named file ↔ ∃ config d, InUse files named config ∧ config.suffix ≠ "" ∧
      Holds (files file) Description.ofJson d ∧ (d.members.map Method.key).Nodup := by
  constructor
  · intro h
    obtain ⟨config, huse⟩ : ∃ config, InUse files named config :=
      by_contra fun hnone => h (.noConfig (not_exists.1 hnone))
    obtain ⟨d, hd⟩ : ∃ d, Holds (files file) Description.ofJson d :=
      by_contra fun hnone => h (.noDescription (not_exists.1 hnone))
    exact ⟨config, d, huse, fun hsuffix => h (.noSuffix huse hsuffix), hd,
      by_contra fun hkeys => h (.sharedKey hd hkeys)⟩
  · rintro ⟨config, d, huse, hsuffix, hd, hkeys⟩ (hnone | ⟨huse', hsuffix'⟩ | hnone | ⟨hd', hkeys'⟩)
    · exact hnone config huse
    · exact hsuffix (huse.unique huse' ▸ hsuffix')
    · exact hnone d hd
    · exact hkeys' (hd.unique hd' ▸ hkeys)

theorem proxy_eq_failed {files : String → File} {named : Option String} {file complaint : String}
    (h : laidOut files named file = .error complaint) (format : Format) :
    proxy files named file format = .failed complaint := by
  rw [laidOut] at h
  simp only [proxy, h]

theorem proxy_eq_printed {files : String → File} {named : Option String} {file : String}
    {d : Description} {config : Config}
    (h : laidOut files named file = .ok (d.made config, (d.made config).layout))
    (format : Format) :
    proxy files named file format =
      { code := 0, stdout := (d.listing config).printed format } := by
  rw [laidOut] at h
  cases format with
  | text => simp only [proxy, h, d.layoutText_made, Listing.printed]
  | json => simp only [proxy, h, d.layoutJson_made, Listing.printed]

/-- `proxy` ends with 2 and prints nothing if there is an obstacle. Otherwise it ends with 0 and
prints, in either format, the listing of the described proxy. -/
theorem proxy_lists (files : String → File) (named : Option String) (file : String) :
    let output (format : Format) := (Request.run named (.proxy file format)).answer files
    (Obstacle files named file ∧ ∀ format, (output format).code = 2 ∧ (output format).stdout = "") ∨
      ¬Obstacle files named file ∧ ∃ config d l, InUse files named config ∧
        Holds (files file) Description.ofJson d ∧ Lists d config l ∧
        ∀ format, (output format).code = 0 ∧ (output format).stdout = l.printed format := by
  simp only [Request.answer]
  cases hlaid : laidOut files named file with
  | error complaint =>
    refine .inl ⟨by_contra fun h => ?_, fun format => ?_⟩
    · obtain ⟨config, d, huse, hsuffix, hd, hkeys⟩ := not_obstacle_iff.1 h
      cases hlaid.symm.trans (laidOut_eq_ok_iff.2 ⟨config, d, huse, hsuffix, hd, hkeys, rfl⟩)
    · rw [proxy_eq_failed hlaid]
      exact ⟨rfl, rfl⟩
  | ok r =>
    obtain ⟨config, d, huse, hsuffix, hd, hkeys, rfl⟩ := laidOut_eq_ok_iff.1 hlaid
    refine .inr ⟨not_obstacle_iff.2 ⟨config, d, huse, hsuffix, hd, hkeys⟩,
      config, d, d.listing config, huse, hd, d.lists_listing config, fun format => ?_⟩
    rw [proxy_eq_printed hlaid]
    exact ⟨rfl, rfl⟩

end CommandLine

end ClassUnit
