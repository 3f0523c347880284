import ContainerFeed.Proofs.KeyedLookup
import ContainerFeed.Settings

/-!
# What settings take from options

A setting is what its own option is worth to it, or else its default. An option is worth nothing
to a setting when it is absent, and also when its value is of another kind, out of range or
unreadable. So options that cannot be used may as well be left out, and no option has an influence
on the setting of another one.
-/

namespace ContainerFeed.Settings

/-! ## What the value of an option is worth -/

/-- A whole number. -/
def int? : OptionValue → Option Int64
  | .int number => some number
  | _ => none

/-- A text. -/
def text? : OptionValue → Option String
  | .text text => some text
  | _ => none

/-- A port number in range. -/
def port? (value : OptionValue) : Option UInt16 :=
  (int? value).bind fun number =>
    if 0 ≤ number.toInt ∧ number.toInt < 65536 then some (UInt16.ofNat number.toInt.toNat)
    else none

/-- A depth, which is zero for a negative number. -/
def depth? (value : OptionValue) : Option Nat :=
  (int? value).map fun number => number.toInt.toNat

/-- A span that a text spells. -/
def span? (value : OptionValue) : Option Span :=
  (text? value).bind Span.read?

variable {α β : Type}

/-- What the option under a name is worth to its setting. -/
def worth (read : OptionValue → Option α) (name : String) (options : Options) : Option α :=
  (Keyed.get? name options).bind read

/-- Reading further reads further what the option is worth. -/
theorem worth_bind (read : OptionValue → Option α) (next : α → Option β) (name : String)
    (options : Options) :
    worth (fun value => (read value).bind next) name options =
      (worth read name options).bind next :=
  (Option.bind_assoc _ _ _).symm

section

variable (options : Options) (name : String)

/-- A number is taken from an option that is one, or else from the default. -/
theorem int_eq_worth (default : Int64) :
    options.int name default = (worth int? name options).getD default := by
  unfold Options.int worth
  cases Keyed.get? name options with
  | none => rfl
  | some value => cases value <;> rfl

/-- A text is taken from an option that is one, or else from the default. -/
theorem text_eq_worth (default : String) :
    options.text name default = (worth text? name options).getD default := by
  unfold Options.text worth
  cases Keyed.get? name options with
  | none => rfl
  | some value => cases value <;> rfl

/-- A number out of range gives way to the default port, as an absent one does. -/
theorem portOf_int_eq_worth :
    portOf (options.int name defaultServerPort) =
      (worth port? name options).getD (portOf defaultServerPort) := by
  have hdefault : portOf defaultServerPort = UInt16.ofNat defaultServerPort.toInt.toNat := by
    decide
  have hport : worth port? name options = _ := worth_bind int? _ name options
  rw [int_eq_worth, hport]
  cases worth int? name options with
  | none => rfl
  | some number =>
    rw [Option.getD_some, Option.bind_some, hdefault, portOf]
    split <;> rfl

/-- A depth is taken from an option that is a number, or else from the default. -/
theorem toNat_int_eq_worth (default : Int64) :
    (options.int name default).toInt.toNat =
      (worth depth? name options).getD default.toInt.toNat := by
  have hdepth : worth depth? name options =
      (worth int? name options).map fun number => number.toInt.toNat := by
    simp only [worth, Option.map_bind]
    rfl
  rw [int_eq_worth, hdepth]
  cases worth int? name options <;> rfl

/-- A text that spells no span gives way to the default span, as an absent one does. -/
theorem spanOption_eq_worth (default : String) :
    spanOption options name default =
      (worth span? name options).getD ((Span.read? default).getD .zero) := by
  have hspan : worth span? name options = _ := worth_bind text? Span.read? name options
  rw [spanOption, text_eq_worth, hspan]
  cases worth text? name options with
  | none => cases hread : Span.read? default <;> simp [hread]
  | some text => cases hread : Span.read? text <;> simp [hread]

end

/-- Every setting is what its own option is worth, or else its default. -/
theorem resolve_eq_worth (options : Options) :
    resolve options =
      { serverPort := (worth port? serverPortName options).getD (portOf defaultServerPort)
        statsDepth := (worth depth? statsDepthName options).getD defaultStatsDepth.toInt.toNat
        statsSpan :=
          (worth span? statsSpanName options).getD ((Span.read? defaultStatsSpan).getD .zero)
        templateSource := .ofOption
          ((worth text? templateName options).getD Template.Source.builtinName)
        timestampDelta := (worth span? timestampDeltaName options).getD
          ((Span.read? defaultTimestampDelta).getD .zero)
        metricPrefix := (worth text? metricPrefixName options).getD defaultMetricPrefix } := by
  simp only [resolve, portOf_int_eq_worth, toNat_int_eq_worth, spanOption_eq_worth, text_eq_worth]

/-! ## Options that cannot be used -/

/-- The options that are numbers. -/
def numberNames : List String :=
  [serverPortName, statsDepthName]

/-- The options that are texts. -/
def textNames : List String :=
  [statsSpanName, templateName, timestampDeltaName, metricPrefixName]

/-- The options whose texts spell spans. -/
def spanNames : List String :=
  [statsSpanName, timestampDeltaName]

/-- An entry that no setting can use. -/
inductive Unusable : String × OptionValue → Prop
  | unknown {name : String} {value : OptionValue} (hname : name ∉ numberNames ++ textNames) :
      Unusable (name, value)
  | noNumber {name : String} {value : OptionValue} (hname : name ∈ numberNames)
      (hkind : ∀ number, value ≠ .int number) : Unusable (name, value)
  | noPort {number : Int64} (hrange : number.toInt < 0 ∨ 65535 < number.toInt) :
      Unusable (serverPortName, .int number)
  | noText {name : String} {value : OptionValue} (hname : name ∈ textNames)
      (hkind : ∀ text, value ≠ .text text) : Unusable (name, value)
  | noSpan {name text : String} (hname : name ∈ spanNames) (hread : Span.read? text = none) :
      Unusable (name, .text text)

variable {name : String} {value : OptionValue}

/-- What is not a number is read as none. -/
theorem int?_eq_none (hkind : ∀ number, value ≠ .int number) : int? value = none := by
  cases value with
  | int number => exact absurd rfl (hkind number)
  | _ => rfl

/-- What is not a text is read as none. -/
theorem text?_eq_none (hkind : ∀ text, value ≠ .text text) : text? value = none := by
  cases value with
  | text text => exact absurd rfl (hkind text)
  | _ => rfl

/-- No option is a number and a text. -/
theorem not_mem_textNames (hname : name ∈ numberNames) : name ∉ textNames :=
  (by decide : ∀ name ∈ numberNames, name ∉ textNames) name hname

/-- What is unusable as a number is no number, or a port out of range. -/
theorem Unusable.number (h : Unusable (name, value)) (hname : name ∈ numberNames) :
    int? value = none ∨ name = serverPortName ∧ port? value = none := by
  cases h with
  | unknown hunknown => exact absurd (List.mem_append_left _ hname) hunknown
  | noNumber _ hkind => exact .inl (int?_eq_none hkind)
  | noPort hrange =>
    refine .inr ⟨rfl, ?_⟩
    rw [port?, int?, Option.bind_some, if_neg (by omega)]
  | noText htext => exact absurd htext (not_mem_textNames hname)
  | noSpan => exact .inl rfl

/-- What is unusable as a text is no text, or one that spells no span. -/
theorem Unusable.text (h : Unusable (name, value)) (hname : name ∈ textNames) :
    text? value = none ∨ name ∈ spanNames ∧ span? value = none := by
  cases h with
  | unknown hunknown => exact absurd (List.mem_append_right _ hname) hunknown
  | noNumber hnumber => exact absurd hname (not_mem_textNames hnumber)
  | noPort => exact .inl rfl
  | noText _ hkind => exact .inl (text?_eq_none hkind)
  | noSpan hspan hread => exact .inr ⟨hspan, hread⟩

/-- An unusable port is worth nothing. -/
theorem Unusable.port (h : Unusable (serverPortName, value)) : port? value = none := by
  rcases h.number (by decide) with hnone | ⟨_, hnone⟩
  · rw [port?, hnone, Option.bind_none]
  · exact hnone

/-- An unusable depth is worth nothing. -/
theorem Unusable.depth (h : Unusable (statsDepthName, value)) : depth? value = none := by
  rcases h.number (by decide) with hnone | ⟨hname, _⟩
  · rw [depth?, hnone, Option.map_none]
  · exact absurd hname (by decide)

/-- An unusable text that should spell a span is worth nothing. -/
theorem Unusable.span (h : Unusable (name, value)) (hname : name ∈ spanNames) :
    span? value = none := by
  have htext : name ∈ textNames := (by decide : ∀ name ∈ spanNames, name ∈ textNames) name hname
  rcases h.text htext with hnone | ⟨_, hnone⟩
  · rw [span?, hnone, Option.bind_none]
  · exact hnone

/-- An unusable text that need not spell a span is worth nothing. -/
theorem Unusable.plainText (h : Unusable (name, value)) (hname : name ∈ textNames)
    (hother : name ∉ spanNames) : text? value = none :=
  (h.text hname).resolve_right fun hspan => hother hspan.1

/-! ## Options that are left out -/

/-- Entries that are worth nothing may as well be left out. -/
theorem worth_filter {options : Options} (hmap : (Keyed.keys options).Nodup)
    {kept : String × OptionValue → Bool} {read : OptionValue → Option α}
    (hworthless : ∀ value, (name, value) ∈ options → kept (name, value) = false →
      read value = none) :
    worth read name (options.filter kept) = worth read name options := by
  rw [worth, worth, Keyed.get?_filter hmap]
  cases hfound : Keyed.get? name options with
  | none => rfl
  | some value =>
    rw [Option.filter_some, Option.bind_some]
    split
    case isTrue => rfl
    case isFalse hleft =>
      rw [Option.bind_none, hworthless value (Keyed.mem_of_get? hfound) (by simpa using hleft)]

/-- Options agree on a name when both have the same value under it, or neither has one. -/
def AgreeOn (options others : Options) (name : String) : Prop :=
  Keyed.get? name options = Keyed.get? name others

/-- Leaving out any entries that cannot be used changes no setting, and each setting is the same
for all options that agree on its own one. -/
theorem resolve_follows_usable_options (options : Options) :
    ((Keyed.keys options).Nodup → ∀ kept : String × OptionValue → Bool,
      (∀ entry ∈ options, kept entry = false → Unusable entry) →
      resolve (options.filter kept) = resolve options) ∧
    ∀ others,
      (AgreeOn options others serverPortName →
        (resolve options).serverPort = (resolve others).serverPort) ∧
      (AgreeOn options others statsDepthName →
        (resolve options).statsDepth = (resolve others).statsDepth) ∧
      (AgreeOn options others statsSpanName →
        (resolve options).statsSpan = (resolve others).statsSpan) ∧
      (AgreeOn options others templateName →
        (resolve options).templateSource = (resolve others).templateSource) ∧
      (AgreeOn options others timestampDeltaName →
        (resolve options).timestampDelta = (resolve others).timestampDelta) ∧
      (AgreeOn options others metricPrefixName →
        (resolve options).metricPrefix = (resolve others).metricPrefix) := by
  constructor
  · intro hmap kept hunusable
    have hport := worth_filter hmap fun value hvalue hleft => (hunusable _ hvalue hleft).port
    have hdepth := worth_filter hmap fun value hvalue hleft => (hunusable _ hvalue hleft).depth
    have hspan {name : String} (hname : name ∈ spanNames) :=
      worth_filter hmap fun value hvalue hleft => (hunusable (name, _) hvalue hleft).span hname
    have htext {name : String} (hname : name ∈ textNames) (hother : name ∉ spanNames) :=
      worth_filter hmap fun value hvalue hleft =>
        (hunusable (name, _) hvalue hleft).plainText hname hother
    rw [resolve_eq_worth, resolve_eq_worth, hport, hdepth, hspan (by decide), hspan (by decide),
      htext (by decide) (by decide), htext (by decide) (by decide)]
  · intro others
    simp only [resolve_eq_worth, worth, AgreeOn]
    refine ⟨?_, ?_, ?_, ?_, ?_, ?_⟩ <;> intro hagree <;> rw [hagree]

/-- Options of which one only can be used, and options that agree with them on it and on one that
is absent. -/
theorem resolve_follows_usable_options_delta :
    let options : Options := [(serverPortName, .int 70000), (statsSpanName, .text "soon"),
      ("log_level", .bool true), (timestampDeltaName, .text "-1h 30m"),
      (metricPrefixName, .int 5)]
    let others : Options := [(timestampDeltaName, .text "-1h 30m"), (serverPortName, .int 9000)]
    let kept (entry : String × OptionValue) : Bool := entry.1 == timestampDeltaName
    (Keyed.keys options).Nodup ∧ (∀ entry ∈ options, kept entry = false → Unusable entry) ∧
      resolve (options.filter kept) = resolve options ∧
      (AgreeOn options others timestampDeltaName ∧
        (resolve options).timestampDelta = (resolve others).timestampDelta) ∧
      AgreeOn options others templateName ∧
        (resolve options).templateSource = (resolve others).templateSource := by
  intro options others kept
  have hmap : (Keyed.keys options).Nodup := by decide
  have hunusable : ∀ entry ∈ options, kept entry = false → Unusable entry := by
    simp only [options, List.forall_mem_cons]
    refine ⟨fun _ => .noPort (by decide), fun _ => .noSpan (by decide) (by decide +kernel),
      fun _ => .unknown (by decide), fun hleft => absurd hleft (by decide),
      fun _ => .noText (by decide) (by simp), by simp⟩
  have hfollows := resolve_follows_usable_options options
  exact ⟨hmap, hunusable, hfollows.1 hmap kept hunusable,
    ⟨rfl, (hfollows.2 others).2.2.2.2.1 rfl⟩, rfl, (hfollows.2 others).2.2.2.1 rfl⟩

end ContainerFeed.Settings
