import Neuroform.Scalar.Single
import Neuroform.Window.Convolution
import Neuroform.Window.Pooling
import Neuroform.Activation
import Neuroform.OptionValue
import Neuroform.Layer.Operation
import Neuroform.Layer.Dense
import Neuroform.Layer.Normalization
import Neuroform.Layer.Convolution
import Neuroform.Layer.Pooling
import Neuroform.Layer.Pointwise
import Neuroform.Layer.Rearrangement
import Neuroform.Layer.Resampling
import Neuroform.Layer.Kind
import Neuroform.Graph.Basic
import Neuroform.Graph.Order
import Neuroform.Graph.Build
import Neuroform.Graph.Evaluate
import Neuroform.Graph.Provenance
import Neuroform.Network.Neuron
import Neuroform.Network.Synapse
import Neuroform.Network.Transform
import Neuroform.Network.Object
import Neuroform.Network.Basic
import Neuroform.Network.Order
import Neuroform.Network.Simulate
import Neuroform.Conversion.Session
import Neuroform.Conversion.Runner
import Neuroform.Conversion.Verify
import Neuroform.Proofs.Graph.Flow
import Neuroform.Proofs.Graph.Inlining
import Neuroform.Proofs.Conversion.Walk
import Neuroform.Proofs.Network.Calls
import Neuroform.Proofs.Network.Convolving
import Neuroform.Proofs.Network.Order
import Neuroform.Proofs.Network.Runnable
import Neuroform.Proofs.Network.Parts
import Neuroform.Proofs.Conversion.Parameters
import Neuroform.Proofs.Agreement
import Neuroform.Proofs.Network.Scaling
import Neuroform.Proofs.Conversion.Rates
import Neuroform.Proofs.Conversion.Picks
import Neuroform.Proofs.Conversion.Ends
import Neuroform.Proofs.Conversion.Sharing
import Neuroform.Proofs.Conversion.Targets
import Neuroform.Proofs.Graph.Dims
import Neuroform.Proofs.Conversion.Holding
import Neuroform.Proofs.Conversion.Sizes
import Neuroform.Proofs.Conversion.Reading
import Neuroform.Proofs.Conversion.Feeding
import Neuroform.Proofs.Graph.Adding
import Neuroform.Proofs.Graph.Kept
import Neuroform.Proofs.Graph.Origins
import Neuroform.Proofs.Graph.Search
import Neuroform.Proofs.Graph.Progress
import Neuroform.Proofs.Conversion.Preserved
import Neuroform.Proofs.Network.Recurrence
import Neuroform.Proofs.Conversion.Attaching
import Neuroform.Proofs.Conversion.Feedforward
import Neuroform.Proofs.Network.Equations
import Neuroform.Proofs.Network.Rowwise
import Neuroform.Proofs.Network.Stacking
import Neuroform.Proofs.Conversion.Noting
import Neuroform.Proofs.Conversion.Composed
import Neuroform.Proofs.Conversion.Filtering
import Neuroform.Proofs.Conversion.Relaying
import Neuroform.Proofs.Layer.Inference
import Neuroform.Proofs.Convolution
import Neuroform.Proofs.Network.Matrix
import Neuroform.Proofs.Pooling
import Neuroform.Proofs.Layer.Equivariance
import Neuroform.Proofs.Conversion.Averaging
import Neuroform.Proofs.Conversion.Folding
import Neuroform.Proofs.Conversion.Resampling
import Neuroform.Proofs.Conversion.Biases
import Neuroform.Proofs.Layer.Joining
import Neuroform.Proofs.Network.Assembly
import Neuroform.Proofs.Conversion.Entries
import Neuroform.Proofs.Conversion.Wiring
import Neuroform.Proofs.Conversion.Packing
import Neuroform.Proofs.Conversion.Slabs
import Neuroform.Proofs.Conversion.BatchAxis
import Neuroform.Proofs.Graph.Tally
import Neuroform.Proofs.Conversion.Eligibility
import Neuroform.Proofs.Conversion.Swapping
import Neuroform.Proofs.Conversion.Closeness
import Neuroform.Proofs.Network.Settling
import Neuroform.Proofs.Layer.Interpolation
import Neuroform.Proofs.Graph.Succeeding
import Neuroform.Proofs.Conversion.Copies
import Neuroform.Proofs.Box
import Neuroform.Proofs.Padding
import Neuroform.Proofs.Network.Views
import Neuroform.Proofs.Layer.Reshaping
