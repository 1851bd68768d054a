import SignHash.Code.Distance
import SignHash.Code.Json
import SignHash.Descriptor.Json
import SignHash.Extraction.Exchange
import SignHash.Main
import SignHash.Proofs.Reply
import SignHash.Proofs.Requests
import SignHash.Proofs.Answers
import SignHash.Proofs.Lane
import SignHash.Proofs.Exchange
import SignHash.Proofs.Processes
import SignHash.Extraction.Schedule
import SignHash.Proofs.Corpus
import SignHash.Proofs.Schedule
import SignHash.Proofs.Training
import SignHash.Proofs.Frame
import SignHash.Proofs.Matrix
import SignHash.Proofs.Record
import SignHash.Proofs.Double
import SignHash.Proofs.Orthonormality
import SignHash.Proofs.Sources
import SignHash.Proofs.Code
import SignHash.Proofs.Distance
import SignHash.Proofs.MatrixAlgebra
import SignHash.Proofs.Procrustes
import SignHash.Proofs.Rotation
import SignHash.Proofs.Hex
import SignHash.Proofs.Folder
import SignHash.Proofs.Fit
import SignHash.Proofs.Encoder
import SignHash.Proofs.Nearest
import SignHash.Proofs.Numeral
import SignHash.Proofs.Document
import SignHash.Proofs.Configuration
import SignHash.Proofs.DescriptorDocument
import SignHash.Proofs.Convergence
import SignHash.Proofs.Service
import SignHash.Proofs.Digits
import SignHash.Proofs.Order
import SignHash.Proofs.Number
import SignHash.Proofs.Signs
import SignHash.Proofs.Preparation
import SignHash.Proofs.Magnitude
import SignHash.Proofs.Directions
import SignHash.Proofs.Rounding
import SignHash.Proofs.Scaling
import SignHash.Proofs.UnitLength
import SignHash.Proofs.Counts
import SignHash.Proofs.CheckedMatrix
import SignHash.Proofs.CheckedFit
import SignHash.Proofs.FitOutcomes
import SignHash.Proofs.Identifiers
import SignHash.Proofs.Listing
import SignHash.Proofs.Hashing
import SignHash.Proofs.Saving
