/-
  Neuroform — the reasons for which an operation is refused.

  One type of causes per part of the library, each with the text that a reader
  of an error sees.  `ConversionCause` holds the conversion failures that
  callers tell apart; all others are only reported.
-/
import Neuroform.Graph.Id
import Neuroform.Network.Id
import Neuroform.Shape
import Neuroform.Window

namespace Neuroform

/-- The positions from `start` up to, but not including, `stop`. -/
structure Interval where
  start : Nat
  stop : Nat
  deriving DecidableEq, Inhabited

/-- The text of an interval. -/
def Interval.text (i : Interval) : String := s!"{i.start}..{i.stop}"

/-! ## Positions, shapes and windows -/

/-- Refusals of index arithmetic and of sliding windows. -/
inductive GridCause where
  | rangeCount (ranges rank : Nat)
  | rangeBounds (range : Interval) (axis dim : Nat)
  | axisRange (axis : Int) (rank : Nat)
  | unresolved (shape : Shape)
  | geometryRank (geometry : Geometry) (spatial : Nat)
  | zeroStride
  | convolutionRank
  | kernelGeometry (kernel : List Nat) (geometry : Geometry)
  | kernelInputs (expected actual : Nat)
  | poolingRank
  | globalPoolingRank (rank : Nat)

def GridCause.text : GridCause → String
  | rangeCount ranges rank => s!"Selection has {ranges} ranges for a rank {rank} shape"
  | rangeBounds range axis dim => s!"Range {range.text} out of bounds on axis {axis} ({dim})"
  | axisRange axis rank => s!"Axis {axis} out of range for rank {rank}"
  | unresolved shape => s!"Shape {shape.text} has unresolved dimensions"
  | geometryRank g spatial => s!"Geometry {g.text} does not match {spatial} spatial axes"
  | zeroStride => "Strides must be positive"
  | convolutionRank => "Convolution input needs a channel axis"
  | kernelGeometry kernel g =>
    s!"Kernel shape {Listing.sizes kernel} does not match geometry {g.text}"
  | kernelInputs expected actual =>
    s!"Kernel expects {expected} input channels, input has {actual}"
  | poolingRank => "Pooling input needs a channel axis"
  | globalPoolingRank rank => s!"Global pooling needs spatial axes, got rank {rank}"

/-! ## Layers -/

/-- Refusals of a layer: its making, its shape inference or its evaluation.
    Layers are named by the text of their type. -/
inductive LayerCause where
  | unknownActivation (name : String)
  | arity (layer : String) (expected actual : Nat)
  | noChannelAxis (shape : Shape)
  | emptyBatch
  | inputArity
  | inputRank (declared fed : Shape)
  | nothingFed
  | noFeatureAxis
  | features (expected actual : Nat)
  | tooFewInputs (layer : String)
  | mergedShapes (layer : String) (first other : Shape)
  | noInputs (layer : String)
  | statistics (axis dim stats : Nat)
  | severalAxes (axes : List Int)
  | kernelRank (kernel : List Nat)
  | biasCount
  | unexpectedInput (layer : String) (shape : Shape)
  | channels (expected actual : Nat)
  | concatenatedRanks
  | severalWildcards (target : List Int)
  | reshape (volume : Nat) (target : List Int)
  | sampleRank (rank sample : Nat)

def LayerCause.text : LayerCause → String
  | unknownActivation name => s!"Unknown activation {name}"
  | arity layer expected actual => s!"{layer} expects {expected} input(s), got {actual}"
  | noChannelAxis shape => s!"Shape {shape.text} has no channel axis"
  | emptyBatch => "Empty batch"
  | inputArity => "InputLayer takes at most one tensor"
  | inputRank declared fed =>
    s!"InputLayer declared {declared.text} but was called on {fed.text}"
  | nothingFed => "No value fed to input layer"
  | noFeatureAxis => "Dense needs at least one axis"
  | features expected actual =>
    s!"Dense kernel expects {expected} features, input has {actual}"
  | tooFewInputs layer => s!"{layer} needs at least two inputs"
  | mergedShapes layer first other =>
    s!"{layer} inputs have different shapes: {first.text} and {other.text}"
  | noInputs layer => s!"{layer} needs inputs"
  | statistics axis dim stats => s!"Axis {axis} has {dim} entries, statistics have {stats}"
  | severalAxes axes =>
    s!"Only single-axis normalization is evaluated, got {Listing.integers axes}"
  | kernelRank kernel =>
    "Convolution kernel must be (kernel.., c_in, filters) with 1 to 3 spatial axes, got " ++
      Listing.sizes kernel
  | biasCount => "Bias does not match filter count"
  | unexpectedInput layer shape => s!"{layer} got input {shape.text}"
  | channels expected actual => s!"Kernel expects {expected} channels, input has {actual}"
  | concatenatedRanks => "Concatenate inputs have different ranks"
  | severalWildcards target =>
    s!"Reshape target {Listing.integers target} has more than one -1"
  | reshape volume target =>
    s!"Cannot reshape {volume} elements to {Listing.integers target}"
  | sampleRank rank sample => s!"UpSampling{rank}D got a rank {sample} sample"

/-! ## Graphs and their evaluation -/

/-- Refusals of a graph: building it, ordering a model, evaluating it.  Layers
    are named by their text, `name (type)`. -/
inductive GraphCause where
  | noLayer (layer : LayerId)
  | noLayerNamed (name : String)
  | noTensor (tensor : TensorId)
  | noInvocation (layer : String) (invocation : Nat)
  | notPrimitive (layer : String)
  | outputCount (layer : String) (outputs : Nat)
  | notModel (layer : String)
  | inputWithoutProducer (tensor : TensorId)
  | inputNotFromInputLayer (model : String) (tensor : TensorId) (layer : String)
  | noProducer (tensor : TensorId)
  | disconnected (layer : String)
  | modelArity (model : String) (expected actual : Nat)
  | notReplayed (tensor : TensorId)
  | outputNotReplayed (tensor : TensorId)
  | fedShape (tensor : TensorId) (shape : Shape) (fed : List Nat)
  | noInternalTensor (tensor : TensorId)
  | outputNotComputed (tensor : TensorId)
  | noValue (tensor : TensorId)
  | producedCount (layer : String) (produced expected : Nat)
  | notProduced (tensor : TensorId)

def GraphCause.text : GraphCause → String
  | noLayer layer => s!"No layer {layer.text}"
  | noLayerNamed name => s!"No layer named {name}"
  | noTensor tensor => s!"No tensor {tensor.text}"
  | noInvocation layer invocation => s!"Layer {layer} has no invocation {invocation}"
  | notPrimitive layer => s!"{layer} is not a primitive layer"
  | outputCount layer outputs => s!"Layer {layer} has {outputs} outputs"
  | notModel layer => s!"{layer} is not a model"
  | inputWithoutProducer tensor => s!"Model input {tensor.text} has no producing layer"
  | inputNotFromInputLayer model tensor layer =>
    s!"Inputs of model {model} must come from input layers, {tensor.text} comes from {layer}"
  | noProducer tensor => s!"Tensor {tensor.text} has no producing layer"
  | disconnected layer => s!"Graph disconnected: {layer} is not one of the model inputs"
  | modelArity model expected actual => s!"Model {model} takes {expected} inputs, got {actual}"
  | notReplayed tensor => s!"{tensor.text} was not replayed"
  | outputNotReplayed tensor => s!"Model output {tensor.text} was not replayed"
  | fedShape tensor shape fed =>
    s!"Input {tensor.text} expects shape {shape.text}, got {Listing.sizes fed}"
  | noInternalTensor tensor => s!"{tensor.text} has no internal tensor"
  | outputNotComputed tensor => s!"Output {tensor.text} was not computed"
  | noValue tensor => s!"{tensor.text} has no value"
  | producedCount layer produced expected =>
    s!"{layer} produced {produced} outputs, expected {expected}"
  | notProduced tensor => s!"{tensor.text} was not produced"

/-! ## Networks and their simulation -/

/-- Refusals of a network: building it and simulating it.  Objects are named
    by their text, `<kind "label">`. -/
inductive NetworkCause where
  | noObject (object : ObjectId) (network : String)
  | noConnection (connection : ConnectionId) (network : String)
  | noProbe (probe : ProbeId) (network : String)
  | indexOutOfView (index size : Nat)
  | indexOutOfObject (index : Nat) (object : String) (size : Nat)
  | timeConstant (tau : String)
  | convolutionDims (input : List Nat)
  | convolutionKernel (kernel expected : List Nat)
  | transformSizes (expectedIn expectedOut sizeIn sizeOut : Nat)
  | sparseCount (indices values : Nat)
  | sparseIndex (rows columns : Nat)
  | transformInput (expected actual : Nat)
  | recurrent (network object : String)
  | notConstant (object : String)
  | fedData (object : String) (rows columns batch size : Nat)
  | producedValues (object : String) (values size : Nat)
  | probedNotEvaluated
  | evaluatedBefore (object : ObjectId) (pre : String)

def NetworkCause.text : NetworkCause → String
  | noObject object network => s!"No object {object.text} in network {network}"
  | noConnection connection network => s!"No connection {connection.text} in network {network}"
  | noProbe probe network => s!"No probe {probe.text} in network {network}"
  | indexOutOfView index size => s!"Index {index} out of view of {size}"
  | indexOutOfObject index object size =>
    s!"Index {index} out of bounds for {object} of size {size}"
  | timeConstant tau => s!"Synapse time constant must be >= 0, got {tau}"
  | convolutionDims input =>
    s!"Convolution over {Listing.sizes input} needs {input.length - 1} kernel and stride dims"
  | convolutionKernel kernel expected =>
    s!"Convolution kernel has shape {Listing.sizes kernel}, expected {Listing.sizes expected}"
  | transformSizes expectedIn expectedOut sizeIn sizeOut =>
    s!"Transform maps {expectedIn} to {expectedOut} values, " ++
      s!"connection has {sizeIn} to {sizeOut}"
  | sparseCount indices values => s!"Sparse transform has {indices} indices and {values} values"
  | sparseIndex rows columns => s!"Sparse transform index out of {Listing.pair rows columns}"
  | transformInput expected actual => s!"Transform expects {expected} inputs, got {actual}"
  | recurrent network object =>
    s!"Network {network} is recurrent around {object}, " ++
      "steady-state evaluation needs a feed-forward network"
  | notConstant object => s!"Only constant nodes can be fed, {object} is not one"
  | fedData object rows columns batch size =>
    s!"Data for {object} has shape {Listing.pair rows columns}, " ++
      s!"expected {Listing.pair batch size}"
  | producedValues object values size =>
    s!"{object} produced {values} values, expected {size} per sample"
  | probedNotEvaluated => "Probed object was not evaluated"
  | evaluatedBefore object pre => s!"{object.text} evaluated before {pre}"

/-! ## Conversion -/

/-- Why a layer has no native counterpart. -/
inductive Ineligibility where
  | maximumPooling
  | trainedNormalization
  | severalAxes (axes : List Int)
  | batchConcatenation
  | denseRank (layer : String) (shape : Shape)

def Ineligibility.text : Ineligibility → String
  | maximumPooling =>
    "Cannot convert max pooling layers to native objects; consider setting " ++
      "max_to_avg_pool to use average pooling instead"
  | trainedNormalization =>
    "Cannot convert BatchNormalization layer to native objects unless inference_only is enabled"
  | severalAxes axes =>
    s!"Can only convert BatchNormalization over a single axis, got {Listing.integers axes}"
  | batchConcatenation => "Cannot concatenate along batch dimension (axis 0)"
  | denseRank layer shape =>
    s!"Dense layer {layer} is applied on {shape.text}, only inputs with a single " ++
      "non-batch dimension can be converted"

/-- What is wrong with the settings of a conversion.  Numbers and
    nonlinearities are named by their text. -/
inductive SettingsFlaw where
  | scale (factor : String)
  | synapse (reason : String)
  | swappedTwice (nonlinearity : String)

def SettingsFlaw.text : SettingsFlaw → String
  | scale factor => s!"firing rate scale must be positive, got {factor}"
  | synapse reason => reason
  | swappedTwice nonlinearity => s!"{nonlinearity} is swapped more than once"

/-- Conversion failures that callers tell apart. -/
inductive ConversionCause where
  | unresolvedProvenance (tensor : TensorId)
  | ambiguousKey (layer : String)
  | unconvertibleLayer (layer reason : String)
  | unsupportedOption (layer option value default : String) (trainingOnly : Bool)
  | ineligible (layer : String) (reason : Ineligibility)
  | unsupportedActivation (layer activation : String)
  | duplicateLayerApplication (layer : String)
  | shapeUnderspecified (shape : Shape)
  | verificationMismatch (output : Nat) (maxDifference : String)
  | parameterCountMismatch (network model : Nat)
  | invalidConfig (flaw : SettingsFlaw)

def ConversionCause.text : ConversionCause → String
  | unresolvedProvenance tensor => s!"Tensor {tensor.text} has no producing layer"
  | ambiguousKey layer =>
    s!"Layer {layer} is ambiguous because it has multiple output tensors; " ++
      "use a specific tensor as key instead"
  | unconvertibleLayer layer reason =>
    s!"{reason}. Unable to convert layer {layer} to native objects; enable allow_fallback " ++
      "to use a tensor node instead, or register a converter for this layer type"
  | unsupportedOption layer option value default trainingOnly =>
    let hint := if trainingOnly then " (unless inference_only is enabled)" else ""
    s!"{layer}.{option} has value {value} != {default}, which is not supported{hint}"
  | ineligible _ reason => reason.text
  | unsupportedActivation layer activation =>
    s!"Unsupported activation type ({activation}) in layer {layer}"
  | duplicateLayerApplication layer =>
    s!"Multiple applications of layer {layer} detected; " ++
      "this is not supported unless split_shared_weights is enabled"
  | shapeUnderspecified shape => s!"Input shapes must be fully specified; got {shape.text}"
  | verificationMismatch output maxDifference =>
    s!"Output {output} of the source model does not match output of the converted network " ++
      s!"(max difference={maxDifference}; set log level to INFO to see all failures)"
  | parameterCountMismatch network model =>
    s!"Number of trainable parameters in converted network ({network}) does not match " ++
      s!"number of trainable parameters in source model ({model})"
  | invalidConfig flaw => s!"Invalid converter configuration: {flaw.text}"

/-- Which side of an invocation is looked at. -/
inductive Side where
  | input
  | output
  deriving DecidableEq

/-- The text of a side. -/
def Side.text : Side → String
  | input => "Input"
  | output => "Output"

/-- Refusals inside a conversion session that are only reported. -/
inductive SessionCause where
  | provenanceLoop (tensor through : TensorId)
  | tensorCount (layer : String) (invocation count : Nat) (side : Side)
  | notApplied (layer : String)
  | noEntry (tensor : TensorId)
  | ruleMismatch (expected layer : String)
  | builtNothing (layer : LayerId)
  | notConverted (tensor : TensorId) (layer : LayerId) (invocation : Nat)
  | noInput (layer : String) (invocation input : Nat)
  | biasCount (layer : String) (biases size : Nat)
  | calledModel (model : String)
  | normalizedBatch
  | concatenatedBatch
  | emptyWindow (window : List Nat)
  | upsampledInput (rank : Nat) (input : List Nat)
  | paddedOutput (rank : Nat) (output : List Nat)
  | paddingExceeds (axis : Nat)
  | wrappedOutputs (layer : String) (outputs : Nat)
  | wrappedModel (model : String)
  | wrappedNoOutput (name : String)

def SessionCause.text : SessionCause → String
  | provenanceLoop tensor through =>
    s!"Provenance of {tensor.text} loops through {through.text}"
  | tensorCount layer invocation count side =>
    s!"{layer} invocation {invocation} has {count} {side.text} tensors, expected one"
  | notApplied layer => s!"Layer {layer} has not been applied to any tensor"
  | noEntry tensor => s!"No entry for {tensor.text}"
  | ruleMismatch expected layer =>
    s!"Converter for {expected} layers cannot be built for {layer}"
  | builtNothing layer => s!"Converter for {layer.text} built no object"
  | notConverted tensor layer invocation =>
    s!"{tensor.text} (from {layer.text} node {invocation}) has not been converted"
  | noInput layer invocation input => s!"{layer} node {invocation} has no input {input}"
  | biasCount layer biases size => s!"{layer} has {biases} biases for {size} outputs"
  | calledModel model => s!"Model {model} can only be converted from its own inputs"
  | normalizedBatch => "Cannot normalize over the batch axis"
  | concatenatedBatch => "Cannot concatenate along batch dimension (axis 0)"
  | emptyWindow window => s!"Empty pooling window {Listing.sizes window}"
  | upsampledInput rank input => s!"UpSampling{rank}D got input {Listing.sizes input}"
  | paddedOutput rank output => s!"ZeroPadding{rank}D got output {Listing.sizes output}"
  | paddingExceeds axis => s!"Padding exceeds output on axis {axis}"
  | wrappedOutputs layer outputs =>
    s!"Cannot wrap {layer} with {outputs} outputs in a tensor node"
  | wrappedModel model => s!"Model {model} cannot be wrapped in a tensor node"
  | wrappedNoOutput name => s!"{name} produced no output"

/-! ## Running and comparing -/

/-- Refusals of runners and of the comparison of two of them. -/
inductive RunnerCause where
  | inputCount (expected actual : Nat)
  | batchSizes
  | noProbeOutput (probe : ProbeId)
  | cannotTrain
  | noBatchAxis
  | outputCount (source target : Nat)
  | valueCount (output source target : Nat)

def RunnerCause.text : RunnerCause → String
  | inputCount expected actual => s!"Network takes {expected} inputs, got {actual}"
  | batchSizes => "Inputs have different batch sizes"
  | noProbeOutput probe => s!"{probe.text} has no output"
  | cannotTrain => "This runner does not support training"
  | noBatchAxis => "Inputs need a leading batch axis"
  | outputCount source target =>
    s!"Source model has {source} outputs, converted network {target}"
  | valueCount output source target =>
    s!"Output {output} has {source} values in the source model and " ++
      s!"{target} in the converted network"

end Neuroform
