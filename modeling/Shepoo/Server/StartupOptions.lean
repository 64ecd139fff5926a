import Shepoo.Foundation.PathNames
import Shepoo.Server.Startup

/-! What the options come to. The last value of an option counts, one of the two texts
anywhere ends the program, and every path is turned into one that any directory resolves
in the same way. -/
namespace Shepoo.Server.Startup
open Foundation PathNames

def valueOf (option : ValueOption) : Parsed → Option String
  | .value o optarg => if o = option then some optarg else none
  | _ => none

/-- The last value an option is given, or none at all. -/
def given (option : ValueOption) (parsed : List Parsed) : String :=
  (parsed.filterMap (valueOf option)).getLast?.getD ""

def requested (parsed : List Parsed) : Arguments :=
  ⟨fun option => given option parsed,decide (.daemonize ∈ parsed),decide (.yesIAmSure ∈ parsed)⟩

def AsksForText (parsed : List Parsed) : Prop := .help ∈ parsed ∨ .version ∈ parsed

instance (parsed : List Parsed) : Decidable (AsksForText parsed) :=
  inferInstanceAs (Decidable (_ ∨ _))

def ValueOption.isPath : ValueOption → Bool
  | .tlsCipherSuite => false
  | .listenAddress => false
  | _ => true

def absolutePath (cwd path : String) : String :=
  if path = "" ∨ Absolute '/' path.toList then path else cwd ++ "/" ++ path

def absolutePaths (cwd : String) (arguments : Arguments) : Arguments :=
  { arguments with value := fun option =>
      if option.isPath then absolutePath cwd (arguments.value option)
      else arguments.value option }

def continued (arguments : Arguments) (parsed : List Parsed) : Arguments where
  value option := (parsed.filterMap (valueOf option)).getLast?.getD (arguments.value option)
  flagDaemonize := arguments.flagDaemonize || decide (.daemonize ∈ parsed)
  yesIAmSure := arguments.yesIAmSure || decide (.yesIAmSure ∈ parsed)

theorem continued_unset (parsed : List Parsed) :
    continued Arguments.unset parsed = requested parsed := by
  rw [continued,requested,Arguments.unset,Bool.false_or,Bool.false_or]
  rfl

private theorem continued_value (arguments : Arguments) (option : ValueOption) (optarg : String)
    (rest : List Parsed) :
    continued (arguments.assign option optarg) rest =
      continued arguments (.value option optarg::rest) := by
  simp only [continued,Arguments.assign,List.filterMap_cons,valueOf,List.mem_cons]
  refine Arguments.mk.injEq .. |>.mpr ⟨?_,by simp,by simp⟩
  funext o
  by_cases ho : option = o
  · subst ho
    simp [List.getLast?_cons]
  · simp [ho,Ne.symm ho]

private theorem continued_flag {arguments arguments' : Arguments} {p : Parsed}
    {rest : List Parsed} (hv : ∀ o, valueOf o p = none)
    (hvalue : arguments'.value = arguments.value)
    (hd : arguments'.flagDaemonize = (arguments.flagDaemonize || decide (.daemonize = p)))
    (hy : arguments'.yesIAmSure = (arguments.yesIAmSure || decide (.yesIAmSure = p))) :
    continued arguments' rest = continued arguments (p::rest) := by
  simp only [continued,hvalue,hd,hy,List.filterMap_cons,hv,List.mem_cons,Bool.decide_or,
    Bool.or_assoc]

/-- The loop without an end in between. -/
theorem parse_continued {parsed : List Parsed} (h : ¬ AsksForText parsed)
    (arguments : Arguments) :
    parse arguments parsed = .arguments (continued arguments parsed) := by
  induction parsed generalizing arguments with
  | nil =>
    obtain ⟨value,flagDaemonize,yesIAmSure⟩ := arguments
    simp [parse,continued]
  | cons p rest ih =>
    have hrest : ¬ AsksForText rest := by
      rintro (hm | hm)
      · exact h (.inl (.tail p hm))
      · exact h (.inr (.tail p hm))
    cases p with
    | help => exact absurd (.inl (.head rest)) h
    | version => exact absurd (.inr (.head rest)) h
    | value option optarg =>
      rw [parse,ih hrest,continued_value]
    | daemonize =>
      rw [parse,ih hrest]
      exact congrArg _ (continued_flag (fun _ => rfl) rfl (by simp) (by simp))
    | yesIAmSure =>
      rw [parse,ih hrest]
      exact congrArg _ (continued_flag (fun _ => rfl) rfl (by simp) (by simp))
    | unknown =>
      rw [parse,ih hrest]
      exact congrArg _ (continued_flag (fun _ => rfl) rfl (by simp) (by simp))

theorem parse_text {parsed : List Parsed} (h : AsksForText parsed) (arguments : Arguments) :
    parse arguments parsed = .help ∨ parse arguments parsed = .version := by
  induction parsed generalizing arguments with
  | nil => rcases h with hm | hm <;> cases hm
  | cons p rest ih =>
    cases p with
    | help => exact .inl rfl
    | version => exact .inr rfl
    | value option optarg => exact ih (by simpa [AsksForText] using h) _
    | daemonize => exact ih (by simpa [AsksForText] using h) _
    | yesIAmSure => exact ih (by simpa [AsksForText] using h) _
    | unknown => exact ih (by simpa [AsksForText] using h) _

namespace Arguments

def absolutise (cwd : String) (option : ValueOption) (arguments : Arguments) : Arguments :=
  arguments.assign option (absolutePath cwd (arguments.value option))

theorem assign_value (option : ValueOption) (arguments : Arguments) :
    arguments.assign option (arguments.value option) = arguments := by
  rw [assign,Function.update_eq_self]

theorem makeAbsolute_eq {cwd : String} {option : ValueOption} {arguments : Arguments}
    (h : arguments.value option ≠ "") :
    arguments.makeAbsolute cwd option = some (arguments.absolutise cwd option) := by
  rw [makeAbsolute]
  split
  · rename_i hnone
    exact absurd (String.toList_eq_nil_iff.mp (List.head?_eq_none_iff.mp hnone)) h
  · rename_i c hc
    unfold absolutise absolutePath
    by_cases hslash : c = '/'
    · have habs : Absolute '/' (arguments.value option).toList := by rw [Absolute,hc,hslash]
      rw [if_neg (not_not.mpr hslash),if_pos (.inr habs),assign_value]
    · have habs : ¬ Absolute '/' (arguments.value option).toList := by
        rw [Absolute,hc]
        exact fun heq => hslash (Option.some.inj heq)
      rw [if_pos hslash,if_neg (not_or.mpr ⟨h,habs⟩)]

theorem makeAbsoluteIfGiven_eq (cwd : String) (option : ValueOption) (arguments : Arguments) :
    arguments.makeAbsoluteIfGiven cwd option = some (arguments.absolutise cwd option) := by
  rw [makeAbsoluteIfGiven]
  split
  · rename_i h
    exact makeAbsolute_eq h
  · rename_i h
    rw [absolutise,absolutePath,if_pos (.inl (not_not.mp h)),assign_value]

theorem absolutise_ne (cwd : String) {option o : ValueOption} (h : o ≠ option)
    (arguments : Arguments) :
    (arguments.absolutise cwd option).value o = arguments.value o :=
  Function.update_of_ne h ..

theorem makePathsAbsolute_eq {arguments : Arguments} (cwd : String)
    (hc : arguments.value .tlsCertificateFile ≠ "")
    (hk : arguments.value .tlsPrivateKeyFile ≠ "")
    (hd : arguments.value .tlsDHParamFile ≠ "") :
    arguments.makePathsAbsolute cwd = some (absolutePaths cwd arguments) := by
  rw [makePathsAbsolute]
  simp only [Option.bind_eq_bind]
  rw [makeAbsolute_eq hc,Option.bind_some]
  rw [makeAbsolute_eq (by rwa [absolutise_ne cwd (by decide)]),Option.bind_some]
  rw [makeAbsolute_eq (by rwa [absolutise_ne cwd (by decide),absolutise_ne cwd (by decide)]),
    Option.bind_some]
  simp only [makeAbsoluteIfGiven_eq,Option.bind_some]
  refine congrArg some ((Arguments.mk.injEq ..).mpr ⟨?_,rfl,rfl⟩)
  funext o
  cases o <;> simp [absolutise,assign,ValueOption.isPath]

end Arguments

/-- The whole of what `main` does with its options; nothing is thrown. -/
theorem check_eq (cwd : String) (parsed : List Parsed) :
    check cwd parsed =
      if AsksForText parsed ∨ (requested parsed).missingArguments then .returned
      else .start (absolutePaths cwd (requested parsed)) := by
  rw [check]
  by_cases ht : AsksForText parsed
  · rw [if_pos (.inl ht)]
    rcases parse_text ht Arguments.unset with hp | hp <;> rw [hp]
  rw [parse_continued ht,continued_unset]
  by_cases hm : (requested parsed).missingArguments = true
  · rw [if_pos (.inr hm)]
    simp only [hm,if_true]
  rw [if_neg (not_or.mpr ⟨ht,hm⟩)]
  have hgiven : (requested parsed).value .tlsCertificateFile ≠ "" ∧
      (requested parsed).value .tlsPrivateKeyFile ≠ "" ∧
      (requested parsed).value .tlsDHParamFile ≠ "" := by
    simp only [Arguments.missingArguments,Bool.or_eq_true,beq_iff_eq,not_or] at hm
    exact ⟨hm.2.1.1,hm.2.1.2,hm.2.2⟩
  simp only [if_neg hm,Arguments.makePathsAbsolute_eq cwd hgiven.1 hgiven.2.1 hgiven.2.2]

/-- What the server starts with: the last value of every option, each path made absolute. -/
theorem check_start_iff (cwd : String) (parsed : List Parsed) (arguments : Arguments) :
    (check cwd parsed = .start arguments ↔ ¬ AsksForText parsed ∧
      (requested parsed).missingArguments = false ∧
      arguments = absolutePaths cwd (requested parsed)) ∧
    check cwd parsed ≠ .outOfRange := by
  rw [check_eq]
  by_cases h : AsksForText parsed ∨ (requested parsed).missingArguments = true
  · rw [if_pos h]
    refine ⟨iff_of_false Checked.noConfusion ?_,Checked.noConfusion⟩
    rintro ⟨ht,hm,-⟩
    rcases h with h | h
    · exact ht h
    · rw [hm] at h
      cases h
  · rw [if_neg h]
    rw [not_or,Bool.not_eq_true] at h
    refine ⟨⟨fun he => ⟨h.1,h.2,(Checked.start.inj he).symm⟩,?_⟩,Checked.noConfusion⟩
    rintro ⟨-,-,rfl⟩
    rfl

theorem main_eq (host : Host) (parsed : List Parsed) :
    main host parsed =
      if AsksForText parsed ∨ (requested parsed).missingArguments then .returned
      else proceed host (absolutePaths host.cwd (requested parsed)) := by
  rw [main]
  rw [check_eq]
  by_cases h : AsksForText parsed ∨ (requested parsed).missingArguments = true
  · rw [if_pos h,if_pos h]
  · rw [if_neg h,if_neg h]

theorem start_eq {cwd : String} {parsed : List Parsed} {arguments : Arguments}
    (h : check cwd parsed = .start arguments) :
    arguments = absolutePaths cwd (requested parsed) := by
  rw [check_eq] at h
  split at h
  · cases h
  · exact (Checked.start.inj h).symm

theorem resolve_absolutePath {cwd : String} (hcwd : Absolute '/' cwd.toList) (path : String)
    (anywhere : List Char) :
    resolve '/' anywhere (absolutePath cwd path).toList = resolve '/' cwd.toList path.toList := by
  rw [absolutePath]
  by_cases hempty : path = ""
  · rw [if_pos (.inl hempty),hempty]
    rfl
  by_cases habs : Absolute '/' path.toList
  · rw [if_pos (.inr habs)]
    exact resolve_absolute habs anywhere cwd.toList
  · rw [if_neg (not_or.mpr ⟨hempty,habs⟩),String.toList_append,String.toList_append]
    have hslash : ("/" : String).toList = ['/'] := rfl
    rw [hslash,List.append_assoc,List.singleton_append]
    exact resolve_join hcwd (mt String.toList_eq_nil_iff.mp hempty) habs anywhere

/-- The files the server is left with are those its user named, in whichever directory it
runs later. -/
theorem paths_kept {cwd : String} {parsed : List Parsed} {arguments : Arguments}
    (hcwd : Absolute '/' cwd.toList) (h : check cwd parsed = .start arguments)
    {option : ValueOption} (ho : option.isPath = true) (anywhere : String) :
    resolve '/' anywhere.toList (arguments.value option).toList =
      resolve '/' cwd.toList (given option parsed).toList := by
  rw [start_eq h,absolutePaths]
  simp only [ho,if_true]
  exact resolve_absolutePath hcwd (given option parsed) anywhere.toList

def loggingDaemon : List Parsed :=
  [.daemonize,.value .logFile "var/log",.value .blockStorageFile "/srv/blocks",
    .value .tlsCertificateFile "tls/cert",.value .tlsPrivateKeyFile "tls/key",
    .value .tlsDHParamFile "tls/dh"]

theorem loggingDaemon_paths :
    resolve '/' "/".toList (absolutePath "/srv/shepoo" "var/log").toList =
      resolve '/' "/srv/shepoo".toList "var/log".toList := by
  have hstart : check "/srv/shepoo" loggingDaemon =
      .start (absolutePaths "/srv/shepoo" (requested loggingDaemon)) := by
    rw [check_eq]
    exact if_neg (by decide)
  have hcwd : Absolute '/' "/srv/shepoo".toList := rfl
  have hlog : ValueOption.logFile.isPath = true := rfl
  exact paths_kept hcwd hstart hlog "/"

def namesAddress : Parsed → Bool
  | .value .listenAddress _ => true
  | _ => false

def withoutAddress (parsed : List Parsed) : List Parsed :=
  parsed.filter fun p => !namesAddress p

private theorem mem_withoutAddress {p : Parsed} (h : namesAddress p = false)
    (parsed : List Parsed) : p ∈ withoutAddress parsed ↔ p ∈ parsed := by
  rw [withoutAddress,List.mem_filter,h]
  exact and_iff_left rfl

private theorem given_withoutAddress {option : ValueOption} (h : option ≠ .listenAddress)
    (parsed : List Parsed) : given option (withoutAddress parsed) = given option parsed := by
  have hdrop : ∀ p, namesAddress p = true → valueOf option p = none := by
    intro p hp
    unfold namesAddress at hp
    split at hp
    · exact if_neg (Ne.symm h)
    · cases hp
  have hfilter : (withoutAddress parsed).filterMap (valueOf option) =
      parsed.filterMap (valueOf option) := by
    rw [withoutAddress,List.filterMap_filter]
    refine List.filterMap_congr fun p _ => ?_
    cases hp : namesAddress p with
    | false => rfl
    | true => exact (hdrop p hp).symm
  rw [given,given,hfilter]

private theorem proceed_congr (host : Host) {arguments arguments' : Arguments}
    (hdaemon : arguments'.flagDaemonize = arguments.flagDaemonize)
    (h : ∀ o, o ≠ .listenAddress → arguments'.value o = arguments.value o) :
    proceed host arguments' = proceed host arguments := by
  have hrun : ∀ launch, run host arguments' launch = run host arguments launch := by
    intro launch
    unfold run initializeServer
    rw [h .blockStorageFile (by decide),h .tlsCertificateFile (by decide),
      h .tlsPrivateKeyFile (by decide),h .tlsDHParamFile (by decide),
      h .tlsCipherSuite (by decide)]
  unfold proceed
  simp only [hdaemon,h .logFile (by decide),hrun]

/-- The program behaves as if no listen address had ever been given. -/
theorem listenAddress_ignored (host : Host) (parsed : List Parsed) :
    main host (withoutAddress parsed) = main host parsed := by
  have htext : AsksForText (withoutAddress parsed) ↔ AsksForText parsed :=
    or_congr (mem_withoutAddress rfl parsed) (mem_withoutAddress rfl parsed)
  have hsure : (requested (withoutAddress parsed)).yesIAmSure = (requested parsed).yesIAmSure :=
    decide_eq_decide.mpr (mem_withoutAddress rfl parsed)
  have hdaemon : (requested (withoutAddress parsed)).flagDaemonize =
      (requested parsed).flagDaemonize :=
    decide_eq_decide.mpr (mem_withoutAddress rfl parsed)
  have hvalue : ∀ o, o ≠ .listenAddress →
      (requested (withoutAddress parsed)).value o = (requested parsed).value o :=
    fun o ho => given_withoutAddress ho parsed
  have hmissing : (requested (withoutAddress parsed)).missingArguments =
      (requested parsed).missingArguments := by
    unfold Arguments.missingArguments
    rw [hsure,hvalue .blockStorageFile (by decide),hvalue .shuffleDBFile (by decide),
      hvalue .tlsCertificateFile (by decide),hvalue .tlsPrivateKeyFile (by decide),
      hvalue .tlsDHParamFile (by decide)]
  have hpaths : ∀ o, o ≠ .listenAddress →
      (absolutePaths host.cwd (requested (withoutAddress parsed))).value o =
        (absolutePaths host.cwd (requested parsed)).value o := by
    intro o ho
    simp only [absolutePaths,hvalue o ho]
  have hproceed : proceed host (absolutePaths host.cwd (requested (withoutAddress parsed))) =
      proceed host (absolutePaths host.cwd (requested parsed)) :=
    proceed_congr host hdaemon hpaths
  rw [main_eq,main_eq,hmissing,hproceed]
  simp only [htext]

end Shepoo.Server.Startup
