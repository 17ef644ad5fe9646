import Solpg.Client.Utils.ProgramInteraction.Generator

/-!
# References between generators

When the generation of a value comes to an end. What a generator comes to is the generator of the
account or argument that it names, and for an address from seeds the generators of the program id
and of each seed that is reached.
-/

namespace Solpg.Client.Utils

open Solpg.Std PgCommon

variable {PublicKey : Type} (sources : Sources PublicKey) (values : InstructionValues)

namespace Generator

/-- The generator asks for the value of no other one. -/
def isSource : Generator → Bool
  | .fromSeed _ _ | .accounts _ | .arguments _ => false
  | _ => true

end Generator

mutual

/-- The value that a generator stands for. -/
inductive Valued : Generator → Generated → Prop
  | source {generator value} (isSource : generator.isSource = true)
      (looked : (generateStep sources values (fun _ => none) generator).run = some (.ok value)) :
      Valued generator value
  | account {name acc value} (found : (values.accounts.find? fun acc => acc.name = name) = some acc)
      (valued : Valued acc.generator value) : Valued (.accounts name) value
  | argument {name arg value} (found : (values.args.find? fun arg => arg.name = name) = some arg)
      (valued : Valued arg.generator value) : Valued (.arguments name) value
  | fromSeed {seeds programId address key buffers value} (valued : Valued programId address)
      (converted : toPublicKey sources address = .ok key) (encoded : SeedBuffers seeds buffers)
      (derived : sources.findProgramAddress buffers key = .ok value) :
      Valued (.fromSeed seeds programId) (.text value)

/-- The bytes of seeds. -/
inductive SeedBuffers : List (IdlType × Generator) → List Bytes → Prop
  | nil : SeedBuffers [] []
  | cons {type generator value bytes rest buffers} (valued : Valued generator value)
      (encoded : sources.encode type value = .ok bytes) (others : SeedBuffers rest buffers) :
      SeedBuffers ((type, generator) :: rest) (bytes :: buffers)

end

/-- The generator comes to another one. A seed is reached when there is a program id and bytes for
each seed before it. -/
inductive ComesTo : Generator → Generator → Prop
  | account {name acc} (found : (values.accounts.find? fun acc => acc.name = name) = some acc) :
      ComesTo (.accounts name) acc.generator
  | argument {name arg} (found : (values.args.find? fun arg => arg.name = name) = some arg) :
      ComesTo (.arguments name) arg.generator
  | programId {seeds programId} : ComesTo (.fromSeed seeds programId) programId
  | seed {before type generator after programId address key buffers}
      (valued : Valued sources values programId address)
      (converted : toPublicKey sources address = .ok key)
      (encoded : SeedBuffers sources values before buffers) :
      ComesTo (.fromSeed (before ++ (type, generator) :: after) programId) generator

variable {sources values} {generator : Generator} {value : Generated} {depth deeper : Nat}

/-! ## Programs -/

section Programs

variable {α β : Type} {program program' : GenerateM α} {next next' : α → GenerateM β}

/-- Two steps end when the first ends in an error or both end. -/
theorem bind_run_eq_some {result : Except Text β} : (program >>= next).run = some result ↔
    (∃ value, program.run = some (.ok value) ∧ (next value).run = some result) ∨
      ∃ error, program.run = some (.error error) ∧ result = .error error := by
  rw [ExceptT.run_bind]
  rcases program.run with _ | (error | value)
  · simp
  · simp [eq_comm]
  · simp

/-- Two steps return a value when both return one. -/
theorem bind_run_ok {value : β} : (program >>= next).run = some (.ok value) ↔
    ∃ middle, program.run = some (.ok middle) ∧ (next middle).run = some (.ok value) := by
  rw [bind_run_eq_some]
  simp

/-- A program that gives one value only goes on with it. -/
theorem bind_run_only {value : α} {result : Except Text β}
    (only : ∀ {result}, program.run = some result → result = .ok value)
    (ran : (program >>= next).run = some result) : (next value).run = some result := by
  rcases bind_run_eq_some.mp ran with ⟨other, ran, rest⟩ | ⟨error, ran, -⟩
  · cases only ran
    exact rest
  · cases only ran

/-- A result is returned at once. -/
theorem ofExcept_run (result : Except Text α) :
    (MonadExcept.ofExcept result : GenerateM α).run = some result := by
  cases result <;> rfl

/-- The second program has the result of the first one, if that has one. -/
def Follows (program program' : GenerateM α) : Prop :=
  ∀ result, program.run = some result → program'.run = some result

/-- A generation follows itself. -/
theorem Follows.refl : Follows program program := fun _ ran => ran

/-- Steps that follow one another step by step follow as a whole. -/
theorem Follows.bind (first : Follows program program') (second : ∀ value, Follows (next value) (next' value)) :
    Follows (program >>= next) (program' >>= next') := by
  intro result both
  rcases bind_run_eq_some.mp both with ⟨value, ran, rest⟩ | ⟨error, ran, same⟩
  · exact bind_run_eq_some.mpr (.inl ⟨value, first _ ran, second value _ rest⟩)
  · exact bind_run_eq_some.mpr (.inr ⟨error, first _ ran, same⟩)

/-- Loops whose bodies follow one another follow as a whole. -/
theorem Follows.mapM {f g : α → GenerateM β} (each : ∀ item, Follows (f item) (g item)) (items : List α) :
    Follows (items.mapM f) (items.mapM g) := by
  induction items with
  | nil => exact .refl
  | cons item rest ih =>
      rw [List.mapM_cons, List.mapM_cons]
      exact (each item).bind fun value => ih.bind fun values => .refl

/-- Two steps that end have a first step that ends. -/
theorem bind_isSome (ends : (program >>= next).run.isSome = true) : program.run.isSome = true := by
  obtain ⟨result, ran⟩ := Option.isSome_iff_exists.mp ends
  rcases bind_run_eq_some.mp ran with ⟨value, ran, -⟩ | ⟨error, ran, -⟩
  · rw [ran]
    rfl
  · rw [ran]
    rfl

/-- Two steps end when each of them does. -/
theorem isSome_bind (first : program.run.isSome = true)
    (second : ∀ value, program.run = some (.ok value) → (next value).run.isSome = true) :
    (program >>= next).run.isSome = true := by
  obtain ⟨result, ran⟩ := Option.isSome_iff_exists.mp first
  cases result with
  | error error =>
      rw [bind_run_eq_some.mpr (.inr ⟨error, ran, rfl⟩)]
      rfl
  | ok value =>
      obtain ⟨result, rest⟩ := Option.isSome_iff_exists.mp (second value ran)
      rw [bind_run_eq_some.mpr (.inl ⟨value, ran, rest⟩)]
      rfl

/-- What follows a generation that ends, ends. -/
theorem Follows.isSome (follows : Follows program program') (ends : program.run.isSome = true) :
    program'.run.isSome = true := by
  obtain ⟨result, ran⟩ := Option.isSome_iff_exists.mp ends
  rw [follows result ran]
  rfl

/-- A given result is an end. -/
theorem ofExcept_isSome (result : Except Text α) :
    (MonadExcept.ofExcept result : GenerateM α).run.isSome = true := by
  rw [ofExcept_run]
  rfl

/-- A loop returns exactly the results of its bodies. -/
theorem mapM_run_ok {f : α → GenerateM β} {items : List α} {results : List β} :
    (items.mapM f).run = some (.ok results) ↔
      List.Forall₂ (fun item result => (f item).run = some (.ok result)) items results := by
  induction items generalizing results with
  | nil =>
      rw [List.forall₂_nil_left_iff]
      constructor
      · rintro ran
        cases ran
        rfl
      · rintro rfl
        rfl
  | cons item rest ih =>
      rw [List.mapM_cons, bind_run_ok, List.forall₂_cons_left_iff]
      simp only [bind_run_ok, ih]
      constructor
      · rintro ⟨value, ran, values, others, same⟩
        cases same
        exact ⟨value, values, ran, others, rfl⟩
      · rintro ⟨value, values, ran, others, rfl⟩
        exact ⟨value, ran, values, others, rfl⟩

end Programs

/-! ## Depth -/

variable {generate generate' : Generator → GenerateM Generated}

/-- The buffer of a seed follows its generation. -/
theorem seedBuffer_follows (more : ∀ generator, Follows (generate generator) (generate' generator))
    (seed : IdlType × Generator) :
    Follows (seedBuffer sources generate seed) (seedBuffer sources generate' seed) :=
  (more seed.2).bind fun _ => .refl

/-- One step of a generation follows the recursion. -/
theorem generateStep_follows (more : ∀ generator, Follows (generate generator) (generate' generator))
    (generator : Generator) :
    Follows (generateStep sources values generate generator)
      (generateStep sources values generate' generator) := by
  cases generator with
  | fromSeed seeds programId =>
      refine (more programId).bind fun address => ?_
      refine Follows.refl.bind fun key => ?_
      exact (Follows.mapM (seedBuffer_follows more) seeds).bind fun buffers => .refl
  | accounts name =>
      simp only [generateStep]
      split
      · exact more _
      · exact .refl
  | arguments name =>
      simp only [generateStep]
      split
      · exact more _
      · exact .refl
  | _ => exact .refl

/-- A deeper generation gives what a shallower one gave. -/
theorem generateValue_follows (bound : depth ≤ deeper) (generator : Generator) :
    Follows (generateValue sources values depth generator)
      (generateValue sources values deeper generator) := by
  intro result ran
  have monotone : KeepsValues (β := Except Text Generated) (generateStep sources values) := by
    intro known more extended generator value
    exact generateStep_follows (fun _ _ => extended) generator value
  exact unroll_extends monotone bound ran

/-! ## Values -/

/-- The buffer of a seed is the encoding of its generated value. -/
theorem seedBuffer_run_ok {seed : IdlType × Generator} {bytes : Bytes} :
    (seedBuffer sources generate seed).run = some (.ok bytes) ↔
      ∃ value, (generate seed.2).run = some (.ok value) ∧ sources.encode seed.1 value = .ok bytes := by
  simp only [seedBuffer, bind_run_eq_some, ofExcept_run]
  simp

/-- A seed with one value has one buffer. -/
theorem seedBuffer_only {type : IdlType} {bytes : Bytes} {result : Except Text Bytes}
    (only : ∀ {result}, (generate generator).run = some result → result = .ok value)
    (encoded : sources.encode type value = .ok bytes)
    (ran : (seedBuffer sources generate (type, generator)).run = some result) :
    result = .ok bytes := by
  have ran := bind_run_only only ran
  rw [encoded] at ran
  exact (Option.some.inj ran).symm

/-- A generated address comes from its seeds and its program. -/
theorem generateStep_fromSeed_ok {seeds : List (IdlType × Generator)} {programId : Generator} :
    (generateStep sources values generate (.fromSeed seeds programId)).run = some (.ok value) ↔
      ∃ address key buffers text, (generate programId).run = some (.ok address) ∧
        toPublicKey sources address = .ok key ∧
        List.Forall₂ (fun seed bytes => (seedBuffer sources generate seed).run = some (.ok bytes))
          seeds buffers ∧
        sources.findProgramAddress buffers key = .ok text ∧ value = .text text := by
  simp only [generateStep, generateProgramAddressFromSeeds, bind_run_ok, ofExcept_run, mapM_run_ok]
  constructor
  · rintro ⟨address, ran, key, converted, buffers, encoded, text, derived, same⟩
    cases same
    exact ⟨address, key, buffers, text, ran, Option.some.inj converted, encoded,
      Option.some.inj derived, rfl⟩
  · rintro ⟨address, key, buffers, text, ran, converted, encoded, derived, rfl⟩
    exact ⟨address, ran, key, congrArg some converted, buffers, encoded, text,
      congrArg some derived, rfl⟩

/-- One level of the generation is one step. -/
theorem generateValue_succ (generator : Generator) :
    generateValue sources values (depth + 1) generator =
      generateStep sources values (generateValue sources values depth) generator := rfl

/-- What is generated is what the generator stands for. -/
theorem valued_of_run
    (generated : (generateValue sources values depth generator).run = some (.ok value)) :
    Valued sources values generator value := by
  induction depth generalizing generator value with
  | zero => cases generated
  | succ depth ih =>
      rw [generateValue_succ] at generated
      cases generator with
      | fromSeed seeds programId =>
          obtain ⟨address, key, buffers, text, ran, converted, encoded, derived, rfl⟩ :=
            generateStep_fromSeed_ok.mp generated
          refine .fromSeed (ih ran) converted ?_ derived
          clear generated derived
          induction encoded with
          | nil => exact .nil
          | cons made _ others =>
              obtain ⟨value, ran, bytes⟩ := seedBuffer_run_ok.mp made
              exact .cons (ih ran) bytes others
      | accounts name =>
          simp only [generateStep] at generated
          split at generated
          · next acc found => exact .account found (ih generated)
          · cases generated
      | arguments name =>
          simp only [generateStep] at generated
          split at generated
          · next arg found => exact .argument found (ih generated)
          · cases generated
      | _ => exact .source rfl generated

mutual

/-- A generator that stands for a value gives nothing else. -/
theorem Valued.run_eq {generator : Generator} {value : Generated}
    (valued : Valued sources values generator value) {depth : Nat} {result : Except Text Generated}
    (ran : (generateValue sources values depth generator).run = some result) :
    result = .ok value := by
  cases depth with
  | zero => cases ran
  | succ depth =>
      rw [generateValue_succ] at ran
      match valued with
      | .source isSource looked =>
          have more : ∀ other, Follows ((fun _ => none : Generator → GenerateM Generated) other)
              (generateValue sources values depth other) := fun _ _ none => by cases none
          exact Option.some.inj (ran.symm.trans (generateStep_follows more generator _ looked))
      | .account found valued =>
          simp only [generateStep, found] at ran
          exact valued.run_eq ran
      | .argument found valued =>
          simp only [generateStep, found] at ran
          exact valued.run_eq ran
      | .fromSeed valued converted encoded derived =>
          simp only [generateStep, generateProgramAddressFromSeeds] at ran
          have ran := bind_run_only valued.run_eq ran
          rw [converted] at ran
          have ran := bind_run_only encoded.run_eq ran
          rw [derived] at ran
          exact (Option.some.inj ran).symm

/-- The generated buffers of seeds with values are the encodings of these. -/
theorem SeedBuffers.run_eq {seeds : List (IdlType × Generator)} {buffers : List Bytes}
    (encoded : SeedBuffers sources values seeds buffers) {depth : Nat}
    {result : Except Text (List Bytes)}
    (ran : (seeds.mapM (seedBuffer sources (generateValue sources values depth))).run = some result) :
    result = .ok buffers := by
  match encoded with
  | .nil => exact (Option.some.inj ran).symm
  | .cons valued encoded others =>
      rw [List.mapM_cons] at ran
      have ran := bind_run_only (seedBuffer_only valued.run_eq encoded) ran
      have ran := bind_run_only others.run_eq ran
      exact (Option.some.inj ran).symm

end

/-! ## Demands -/

/-- The generation comes to an end. -/
def GenerationEnds (sources : Sources PublicKey) (values : InstructionValues) (generator : Generator) :
    Prop :=
  ∃ depth, (generateValue sources values depth generator).run.isSome = true

/-- The seeds are generated up to the first one that fails. -/
theorem SeedBuffers.seed_isSome {before after : List (IdlType × Generator)} {buffers : List Bytes}
    {type : IdlType} {generator : Generator} (encoded : SeedBuffers sources values before buffers)
    (ends : ((before ++ (type, generator) :: after).mapM
      (seedBuffer sources (generateValue sources values depth))).run.isSome = true) :
    (generateValue sources values depth generator).run.isSome = true := by
  induction before generalizing buffers with
  | nil =>
      rw [List.nil_append, List.mapM_cons] at ends
      exact bind_isSome (bind_isSome ends)
  | cons first rest ih =>
      cases encoded with
      | cons valued encoded others =>
          rw [List.cons_append, List.mapM_cons] at ends
          obtain ⟨result, ran⟩ := Option.isSome_iff_exists.mp ends
          have ran := bind_run_only (seedBuffer_only valued.run_eq encoded) ran
          exact ih others (bind_isSome (Option.isSome_iff_exists.mpr ⟨result, ran⟩))

/-- What a generation needs. -/
theorem demands_needed {other : Generator}
    (ends : (generateValue sources values (depth + 1) generator).run.isSome = true)
    (comesTo : ComesTo sources values generator other) :
    (generateValue sources values depth other).run.isSome = true := by
  rw [generateValue_succ] at ends
  cases comesTo with
  | account found =>
      simp only [generateStep, found] at ends
      exact ends
  | argument found =>
      simp only [generateStep, found] at ends
      exact ends
  | programId => exact bind_isSome ends
  | seed valued converted encoded =>
      obtain ⟨result, ran⟩ := Option.isSome_iff_exists.mp ends
      simp only [generateStep, generateProgramAddressFromSeeds] at ran
      have ran := bind_run_only valued.run_eq ran
      rw [converted] at ran
      have ends := Option.isSome_iff_exists.mpr ⟨result, ran⟩
      exact encoded.seed_isSome (bind_isSome ends)

/-- One more seed adds its buffer. -/
theorem SeedBuffers.concat {before : List (IdlType × Generator)} {buffers : List Bytes}
    {type : IdlType} {bytes : Bytes} (encoded : SeedBuffers sources values before buffers)
    (valued : Valued sources values generator value)
    (last : sources.encode type value = .ok bytes) :
    SeedBuffers sources values (before ++ [(type, generator)]) (buffers ++ [bytes]) := by
  induction before generalizing buffers with
  | nil =>
      cases encoded
      exact .cons valued last .nil
  | cons first rest ih =>
      cases encoded with
      | cons valuedFirst encodedFirst others => exact .cons valuedFirst encodedFirst (ih others)

/-- Where the generation of all seeds that are reached ends, that of their bytes does. -/
theorem seeds_end {seeds before : List (IdlType × Generator)} {buffers : List Bytes}
    (encoded : SeedBuffers sources values before buffers)
    (ends : ∀ {front type generator back buffers},
      before ++ seeds = front ++ (type, generator) :: back →
        SeedBuffers sources values front buffers → GenerationEnds sources values generator) :
    ∃ depth, (seeds.mapM (seedBuffer sources (generateValue sources values depth))).run.isSome =
      true := by
  induction seeds generalizing before buffers with
  | nil => exact ⟨0, rfl⟩
  | cons seed rest ih =>
      obtain ⟨type, generator⟩ := seed
      obtain ⟨first, settled⟩ := ends rfl encoded
      have made : (seedBuffer sources (generateValue sources values first) (type, generator)).run.isSome =
          true := isSome_bind settled fun value _ => ofExcept_isSome _
      obtain ⟨result, ran⟩ := Option.isSome_iff_exists.mp made
      cases result with
      | error error =>
          refine ⟨first, ?_⟩
          rw [List.mapM_cons]
          refine isSome_bind made fun bytes made => ?_
          rw [ran] at made
          cases made
      | ok bytes =>
          obtain ⟨value, generated, last⟩ := seedBuffer_run_ok.mp ran
          obtain ⟨others, settled⟩ := ih (encoded.concat (valued_of_run generated) last) fun same =>
            ends (by rw [← same, List.append_assoc]; rfl)
          refine ⟨max first others, ?_⟩
          have more : ∀ {depth}, depth ≤ max first others → ∀ seed,
              Follows (seedBuffer sources (generateValue sources values depth) seed)
                (seedBuffer sources (generateValue sources values (max first others)) seed) :=
            fun bound => seedBuffer_follows (generateValue_follows bound)
          rw [List.mapM_cons]
          refine isSome_bind ((more (le_max_left _ _) _).isSome made) fun bytes _ => ?_
          exact isSome_bind ((Follows.mapM (more (le_max_right _ _)) rest).isSome settled)
            fun buffers _ => rfl

/-- Where all that a generator comes to ends, it does. -/
theorem demands_enough
    (ends : ∀ other, ComesTo sources values generator other → GenerationEnds sources values other) :
    GenerationEnds sources values generator := by
  cases generator with
  | accounts name =>
      cases found : values.accounts.find? fun acc => acc.name = name with
      | none =>
          refine ⟨1, ?_⟩
          simp only [generateValue_succ, generateStep, found]
          rfl
      | some acc =>
          obtain ⟨depth, settled⟩ := ends _ (.account found)
          refine ⟨depth + 1, ?_⟩
          simp only [generateValue_succ, generateStep, found]
          exact settled
  | arguments name =>
      cases found : values.args.find? fun arg => arg.name = name with
      | none =>
          refine ⟨1, ?_⟩
          simp only [generateValue_succ, generateStep, found]
          rfl
      | some arg =>
          obtain ⟨depth, settled⟩ := ends _ (.argument found)
          refine ⟨depth + 1, ?_⟩
          simp only [generateValue_succ, generateStep, found]
          exact settled
  | fromSeed seeds programId =>
      obtain ⟨first, settled⟩ := ends _ .programId
      by_cases reached : ∃ address key,
          (generateValue sources values first programId).run = some (.ok address) ∧
            toPublicKey sources address = .ok key
      · obtain ⟨address, key, ran, converted⟩ := reached
        have valued := valued_of_run ran
        obtain ⟨others, encoded⟩ : ∃ depth,
            (seeds.mapM (seedBuffer sources (generateValue sources values depth))).run.isSome = true :=
          seeds_end .nil fun same before => by
            obtain rfl : seeds = _ := same
            exact ends _ (.seed valued converted before)
        have more : ∀ seed, Follows (seedBuffer sources (generateValue sources values others) seed)
            (seedBuffer sources (generateValue sources values (max first others)) seed) :=
          seedBuffer_follows (generateValue_follows (le_max_right _ _))
        refine ⟨max first others + 1, ?_⟩
        rw [generateValue_succ]
        refine isSome_bind ((generateValue_follows (le_max_left _ _) _).isSome settled) fun _ _ => ?_
        refine isSome_bind (ofExcept_isSome _) fun _ _ => ?_
        refine isSome_bind ((Follows.mapM more seeds).isSome encoded) fun _ _ => ?_
        exact isSome_bind (ofExcept_isSome _) fun _ _ => rfl
      · refine ⟨first + 1, ?_⟩
        rw [generateValue_succ]
        refine isSome_bind settled fun address ran => ?_
        refine isSome_bind (ofExcept_isSome _) fun key converted => ?_
        rw [ofExcept_run] at converted
        exact absurd ⟨address, key, ran, Option.some.inj converted⟩ reached
  | _ =>
      refine ⟨1, ?_⟩
      rw [generateValue_succ]
      first
        | rfl
        | exact ofExcept_isSome _

/-- A step needs only the generators that its own one comes to. -/
theorem demands : Demands (β := Except Text Generated) (generateStep sources values)
    (ComesTo sources values) where
  needed := demands_needed
  enough := demands_enough

/-! ## Finitely many generators -/

mutual

/-- A generator and those inside of it. -/
def Generator.parts : Generator → List Generator
  | .fromSeed seeds programId => .fromSeed seeds programId :: (programId.parts ++ seedParts seeds)
  | generator => [generator]

/-- The generators among the seeds, with their parts. -/
def seedParts : List (IdlType × Generator) → List Generator
  | [] => []
  | (_, generator) :: rest => generator.parts ++ seedParts rest

end

/-- A generator is a part of itself. -/
theorem mem_parts (generator : Generator) : generator ∈ generator.parts := by
  cases generator <;> simp [Generator.parts]

/-- The parts of a seed are among the parts of the seeds. -/
theorem mem_seedParts {seeds : List (IdlType × Generator)} {type : IdlType}
    (among : (type, generator) ∈ seeds) {part : Generator} (inside : part ∈ generator.parts) :
    part ∈ seedParts seeds := by
  induction seeds with
  | nil => cases among
  | cons seed rest ih =>
      rw [seedParts]
      rcases List.mem_cons.mp among with rfl | among
      · exact List.mem_append_left _ inside
      · exact List.mem_append_right _ (ih among)

mutual

/-- The parts of a part are parts. -/
theorem parts_subset {part inner : Generator} : (generator : Generator) →
    part ∈ generator.parts → inner ∈ part.parts → inner ∈ generator.parts
  | .fromSeed seeds programId, inside, deeper => by
      rw [Generator.parts] at inside ⊢
      rcases List.mem_cons.mp inside with rfl | inside
      · rwa [Generator.parts] at deeper
      · refine List.mem_cons_of_mem _ (List.mem_append.mpr ?_)
        rcases List.mem_append.mp inside with inside | inside
        · exact .inl (parts_subset programId inside deeper)
        · exact .inr (seedParts_subset seeds inside deeper)
  | .custom _, inside, deeper | .random _, inside, deeper | .currentWallet, inside, deeper
  | .allWallets _, inside, deeper | .currentProgram, inside, deeper | .allPrograms _, inside, deeper
  | .tokenAccounts _, inside, deeper | .mintAccounts _, inside, deeper | .pyth _, inside, deeper
  | .accounts _, inside, deeper | .arguments _, inside, deeper =>
      List.mem_singleton.mp inside ▸ deeper

/-- A part of a part of the seeds is a part of the seeds. -/
theorem seedParts_subset {part inner : Generator} : (seeds : List (IdlType × Generator)) →
    part ∈ seedParts seeds → inner ∈ part.parts → inner ∈ seedParts seeds
  | (_, generator) :: rest, inside, deeper => by
      rw [seedParts] at inside ⊢
      refine List.mem_append.mpr ?_
      rcases List.mem_append.mp inside with inside | inside
      · exact .inl (parts_subset generator inside deeper)
      · exact .inr (seedParts_subset rest inside deeper)

end

/-- All generators that can be come to: the parts of the one that is generated, and of those that
references name. -/
def allParts (values : InstructionValues) (generator : Generator) : List Generator :=
  generator.parts ++ (values.accounts.flatMap (·.generator.parts) ++
    values.args.flatMap (·.generator.parts))

/-- All parts hold the parts of each. -/
theorem mem_allParts_of_part {part inner : Generator} (inside : part ∈ allParts values generator)
    (deeper : inner ∈ part.parts) : inner ∈ allParts values generator := by
  simp only [allParts, List.mem_append, List.mem_flatMap] at inside ⊢
  rcases inside with inside | ⟨acc, among, inside⟩ | ⟨arg, among, inside⟩
  · exact .inl (parts_subset _ inside deeper)
  · exact .inr (.inl ⟨acc, among, parts_subset _ inside deeper⟩)
  · exact .inr (.inr ⟨arg, among, parts_subset _ inside deeper⟩)

/-- All parts hold what each of them comes to. -/
theorem mem_allParts_of_comesTo {part other : Generator} (inside : part ∈ allParts values generator)
    (comesTo : ComesTo sources values part other) : other ∈ allParts values generator := by
  cases comesTo with
  | account found =>
      refine List.mem_append_right _ (List.mem_append_left _ ?_)
      exact List.mem_flatMap.mpr ⟨_, List.mem_of_find?_eq_some found, mem_parts _⟩
  | argument found =>
      refine List.mem_append_right _ (List.mem_append_right _ ?_)
      exact List.mem_flatMap.mpr ⟨_, List.mem_of_find?_eq_some found, mem_parts _⟩
  | programId =>
      refine mem_allParts_of_part inside ?_
      rw [Generator.parts]
      exact List.mem_cons_of_mem _ (List.mem_append_left _ (mem_parts _))
  | seed =>
      refine mem_allParts_of_part inside ?_
      rw [Generator.parts]
      refine List.mem_cons_of_mem _ (List.mem_append_right _ ?_)
      exact mem_seedParts (List.mem_append_right _ List.mem_cons_self) (mem_parts _)

/-- Only finitely many generators are reached. -/
theorem finite_reached :
    {other | Relation.ReflTransGen (ComesTo sources values) generator other}.Finite := by
  refine (allParts values generator).finite_toSet.subset fun other reached => ?_
  induction reached with
  | refl => exact List.mem_append_left _ (mem_parts _)
  | tail _ comesTo ih => exact mem_allParts_of_comesTo ih comesTo

/-- The generation of a value comes to an end exactly when nothing that it comes to leads back to
itself. -/
theorem generationEnds_iff : GenerationEnds sources values generator ↔
    ¬ Cyclic (ComesTo sources values) generator :=
  demands.settles_iff finite_reached

/-! ## References of the test UI -/

namespace InstructionValues

/-- The arguments that are offered for a value with the given name and type. -/
def argumentRefs (values : InstructionValues) (name : Text) (type : IdlType) : List Text :=
  (values.args.filter fun arg =>
    arg.name ≠ name ∧ isEqual sameLength arg.type.toJson type.toJson).map (·.name)

/-- The accounts that an argument may refer to. -/
def accountRefs (values : InstructionValues) (name : Text) (type : IdlType) : List Text :=
  (values.accounts.filter fun acc => acc.name ≠ name ∧ type = .primitive "publicKey".toList).map (·.name)

/-- The reference, if the generator is one, is among those that are offered. -/
def Offered (values : InstructionValues) (name : Text) (type : IdlType) : Generator → Prop
  | .arguments ref => ref ∈ values.argumentRefs name type
  | .accounts ref => ref ∈ values.accountRefs name type
  | _ => True

/-- Instruction values that can be configured in the test UI. -/
structure Configured (values : InstructionValues) : Prop where
  args : ∀ arg ∈ values.args, values.Offered arg.name arg.type arg.generator
  accounts : ∀ acc ∈ values.accounts,
    values.Offered acc.name (.primitive "publicKey".toList) acc.generator

/-- Two arguments of one type, each generated from the other. -/
def twoWays : InstructionValues where
  accounts := []
  args := [⟨"a".toList, .primitive "u8".toList, .arguments "b".toList⟩,
    ⟨"b".toList, .primitive "u8".toList, .arguments "a".toList⟩]

/-- The sample instruction is configured. -/
theorem configured_twoWays : twoWays.Configured where
  args := by
    intro arg among
    simp only [twoWays, List.mem_cons, List.not_mem_nil, or_false] at among
    rcases among with rfl | rfl
    · show "b".toList ∈ twoWays.argumentRefs _ _
      decide
    · show "a".toList ∈ twoWays.argumentRefs _ _
      decide
  accounts := fun acc among => by cases among

end InstructionValues

/-- Neither of the two has a value at any depth. -/
theorem generateValue_twoWays (depth : Nat) :
    generateValue sources .twoWays depth (.arguments "a".toList) = none ∧
      generateValue sources .twoWays depth (.arguments "b".toList) = none := by
  induction depth with
  | zero => exact ⟨rfl, rfl⟩
  | succ depth ih => exact ⟨ih.2, ih.1⟩

/-- The UI leaves out references of a value to itself only. -/
theorem not_always_generationEnds : ¬ ∀ (sources : Sources Unit) (values : InstructionValues),
    values.Configured → ∀ arg ∈ values.args, GenerationEnds sources values arg.generator := by
  intro ends
  let nothing : Sources Unit :=
    { currentWallet := none, wallets := [], currentProgram := none, programs := [],
      pyth := fun _ => .ok .undefined, encode := fun _ _ => .ok [], newPublicKey := fun _ => .ok (),
      findProgramAddress := fun _ _ => .ok [] }
  obtain ⟨depth, settled⟩ := ends nothing .twoWays InstructionValues.configured_twoWays _
    List.mem_cons_self
  have none : generateValue nothing .twoWays depth (.arguments "b".toList) = none :=
    (generateValue_twoWays depth).2
  rw [none] at settled
  cases settled

end Solpg.Client.Utils
